import C2Engine.Python.Prog

/-!
# Programs that keep a log

The requests a program sends are not in its state. To speak of them the program is written a second
time with a log beside the state, in which it notes what it sends. That the second program is the
first one with a log, `Forgets`, is proved along the program text.

## Main definitions

* `Prog.tell`: note an event.
* `Prog.lift`: a program that notes nothing.
* `Prog.zoomLogged`: a program with a log on a part of the state.
* `Prog.Forgets`: a program with a log is, without it, another program.

## Main results

* `Prog.Forgets.bind`, `Prog.Forgets.forM`, `Prog.Forgets.tryExcept`: the rules.
-/

namespace C2Engine.Python

namespace Prog

variable {σ τ α β ε : Type}

/-- Note an event. -/
def tell (ev : ε) : Prog (σ × List ε) Unit := modify fun p => (p.1, p.2 ++ [ev])

/-- A program that notes nothing. -/
def lift (m : Prog σ α) : Prog (σ × List ε) α := zoom Prod.fst (fun s p => (s, p.2)) m

/-- A program with a log on a part of the state. -/
def zoomLogged (part : σ → τ) (set : τ → σ → σ) (m : Prog (τ × List ε) α) :
    Prog (σ × List ε) α :=
  zoom (fun p => (part p.1, p.2)) (fun q p => (set q.1 p.1, q.2)) m

@[simp] theorem run_tell (ev : ε) (p : σ × List ε) :
    (tell ev).run p = (.ok (), (p.1, p.2 ++ [ev])) := rfl

theorem run_lift (m : Prog σ α) (p : σ × List ε) :
    (lift m).run p = ((m.run p.1).1, ((m.run p.1).2, p.2)) := rfl

/-- From every state and log the program ends as the other one does from the state. -/
def Forgets (m' : Prog (σ × List ε) α) (m : Prog σ α) : Prop :=
  ∀ p, (m'.run p).1 = (m.run p.1).1 ∧ (m'.run p).2.1 = (m.run p.1).2

namespace Forgets

variable {m' : Prog (σ × List ε) α} {m : Prog σ α}

theorem pure (a : α) : Forgets (Pure.pure a : Prog (σ × List ε) α) (Pure.pure a) :=
  fun _ => ⟨rfl, rfl⟩

theorem lift (m : Prog σ α) : Forgets (Prog.lift m : Prog (σ × List ε) α) m := fun _ => ⟨rfl, rfl⟩

theorem zoomLogged {part : τ → σ} {set : σ → τ → τ} (h : Forgets m' m) :
    Forgets (Prog.zoomLogged part set m') (zoom part set m) := by
  intro p
  obtain ⟨hresult, hstate⟩ := h (part p.1, p.2)
  exact ⟨hresult, congrArg (fun t => set t p.1) hstate⟩

/-- The outcome of both programs, with the log of the first. -/
theorem exists_run (hm : Forgets m' m) (p : σ × List ε) :
    ∃ r q, m'.run p = (r, q) ∧ m.run p.1 = (r, q.1) :=
  ⟨_, _, rfl, (Prod.ext (hm p).1 (hm p).2).symm⟩

theorem bind {f' : α → Prog (σ × List ε) β} {f : α → Prog σ β} (hm : Forgets m' m)
    (hf : ∀ a, Forgets (f' a) (f a)) : Forgets (m' >>= f') (m >>= f) := by
  intro p
  obtain ⟨r, q, hr', hr⟩ := hm.exists_run p
  cases r with
  | error e =>
    rw [run_bind_of_error hr', run_bind_of_error hr]
    exact ⟨rfl, rfl⟩
  | ok a =>
    rw [run_bind_of_ok hr', run_bind_of_ok hr]
    exact hf a q

/-- An event may be noted first. -/
theorem tell_bind (ev : ε) {f' : Unit → Prog (σ × List ε) α} (hf : Forgets (f' ()) m) :
    Forgets (tell ev >>= f') m :=
  fun p => hf (p.1, p.2 ++ [ev])

/-- Events may be noted last. -/
theorem bind_note {f' : α → Prog (σ × List ε) α} (hm : Forgets m' m)
    (hf : ∀ a, Forgets (f' a) (Pure.pure a)) : Forgets (m' >>= f') m := by
  intro p
  have h := bind hm hf p
  have hpure : (m >>= Pure.pure).run p.1 = m.run p.1 := by
    rw [run_bind]
    rcases m.run p.1 with ⟨_ | _, s⟩ <;> rfl
  rwa [hpure] at h

/-- The state may be read. -/
theorem get_bind {f' : σ × List ε → Prog (σ × List ε) α} {f : σ → Prog σ α}
    (hf : ∀ p, Forgets (f' p) (f p.1)) : Forgets (get >>= f') (get >>= f) :=
  fun p => hf p p

theorem forM {body' : β → Prog (σ × List ε) Unit} {body : β → Prog σ Unit}
    (h : ∀ x, Forgets (body' x) (body x)) :
    (xs : List β) → Forgets (Prog.forM xs body') (Prog.forM xs body)
  | [] => pure ()
  | x :: xs => bind (h x) fun _ => forM h xs

theorem tryExcept {handler' : PyExc → Option (Prog (σ × List ε) α)}
    {handler : PyExc → Option (Prog σ α)} (hm : Forgets m' m)
    (hnone : ∀ e, handler' e = none ↔ handler e = none)
    (hsome : ∀ e q' q, handler' e = some q' → handler e = some q → Forgets q' q) :
    Forgets (Prog.tryExcept m' handler') (Prog.tryExcept m handler) := by
  intro p
  obtain ⟨r, q, hr', hr⟩ := hm.exists_run p
  cases r with
  | ok a =>
    rw [run_tryExcept_of_ok hr', run_tryExcept_of_ok hr]
    exact ⟨rfl, rfl⟩
  | error e =>
    cases hh : handler e with
    | none =>
      rw [run_tryExcept_of_pass hr' ((hnone e).mpr hh), run_tryExcept_of_pass hr hh]
      exact ⟨rfl, rfl⟩
    | some h =>
      cases hh' : handler' e with
      | none => rw [(hnone e).mp hh'] at hh; cases hh
      | some h' =>
        rw [run_tryExcept_of_catch hr' hh', run_tryExcept_of_catch hr hh]
        exact hsome e h' h hh' hh q

end Forgets

end Prog

end C2Engine.Python
