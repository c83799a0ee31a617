import C2Engine.Python.Object

/-!
# Programs with state and exceptions

A `Prog σ α` is a computation of a value of `α` that reads and changes a state of type `σ` and may
raise; the state reached before the exception is kept, as it is for code that talks to a server.

A *triple* `Triple P m Q E` says that from a state satisfying `P` the program ends in a state
satisfying `Q` of its value, or raises in a state satisfying `E` of its exception. The rules of
this file compose triples along the program text; `Triple.forM` is the rule of a `for` loop.

## Main definitions

* `Prog`, `Prog.raise`, `Prog.get`, `Prog.modify`, `Prog.tryExcept`: the computations.
* `Prog.zoom`: a program on a part of the state.
* `Prog.Triple`: pre- and postconditions, one for each way to end.
* `Prog.Total`: a program that never raises.
* `Prog.Keeps`: a program that keeps an invariant, however it ends.

## Main results

* `Prog.Triple.bind`, `Prog.Triple.tryExcept`, `Prog.Triple.forM`: the rules.
* `Prog.run_bind_ok`: a program that returned went through both of its halves.
-/

namespace C2Engine.Python

/-- A computation on states `σ` that returns a value of `α` or raises. -/
def Prog (σ α : Type) : Type := σ → Except PyExc α × σ

namespace Prog

variable {σ α β : Type}

/-- Run a program from a state. -/
def run (m : Prog σ α) (s : σ) : Except PyExc α × σ := m s

instance : Monad (Prog σ) where
  pure a := fun s => (.ok a, s)
  bind m f := fun s => match m s with
    | (.ok a, s') => f a s'
    | (.error e, s') => (.error e, s')

/-- `raise e`. -/
def raise (e : PyExc) : Prog σ α := fun s => (.error e, s)

/-- Read the state. -/
def get : Prog σ σ := fun s => (.ok s, s)

/-- Change the state. -/
def modify (f : σ → σ) : Prog σ Unit := fun s => (.ok (), f s)

/-- A computation without effect that may raise. -/
def ofExcept (x : Except PyExc α) : Prog σ α := fun s => (x, s)

/-- `try: m` with `except`: the handler is given the exceptions it catches, by returning a
program for them. -/
def tryExcept (m : Prog σ α) (handler : PyExc → Option (Prog σ α)) : Prog σ α := fun s =>
  match m s with
  | (.ok a, s') => (.ok a, s')
  | (.error e, s') => match handler e with
    | some h => h s'
    | none => (.error e, s')

/-- `for x in xs: body(x)`. -/
def forM (xs : List β) (body : β → Prog σ Unit) : Prog σ Unit :=
  match xs with
  | [] => pure ()
  | x :: xs => body x >>= fun _ => forM xs body

/-- A program on a part of the state. -/
def zoom {τ : Type} (part : σ → τ) (set : τ → σ → σ) (m : Prog τ α) : Prog σ α := fun s =>
  ((m (part s)).1, set (m (part s)).2 s)

@[simp] theorem run_pure (a : α) (s : σ) : (pure a : Prog σ α).run s = (.ok a, s) := rfl

@[simp] theorem run_raise (e : PyExc) (s : σ) : (raise e : Prog σ α).run s = (.error e, s) := rfl

@[simp] theorem run_get (s : σ) : (get : Prog σ σ).run s = (.ok s, s) := rfl

@[simp] theorem run_modify (f : σ → σ) (s : σ) : (modify f).run s = (.ok (), f s) := rfl

@[simp] theorem run_ofExcept (x : Except PyExc α) (s : σ) :
    (ofExcept x : Prog σ α).run s = (x, s) := rfl

@[simp] theorem run_zoom {τ : Type} (part : σ → τ) (set : τ → σ → σ) (m : Prog τ α) (s : σ) :
    (zoom part set m).run s = ((m.run (part s)).1, set (m.run (part s)).2 s) := rfl

theorem run_bind (m : Prog σ α) (f : α → Prog σ β) (s : σ) :
    (m >>= f).run s = match m.run s with
      | (.ok a, s') => (f a).run s'
      | (.error e, s') => (.error e, s') := rfl

theorem run_bind_of_ok {m : Prog σ α} {f : α → Prog σ β} {s s' : σ} {a : α}
    (h : m.run s = (.ok a, s')) : (m >>= f).run s = (f a).run s' := by
  rw [run_bind, h]

theorem run_bind_of_error {m : Prog σ α} {f : α → Prog σ β} {s s' : σ} {e : PyExc}
    (h : m.run s = (.error e, s')) : (m >>= f).run s = (.error e, s') := by
  rw [run_bind, h]

/-- A sequence that returned went through both of its halves. -/
theorem run_bind_ok {m : Prog σ α} {f : α → Prog σ β} {s s' : σ} {b : β}
    (h : (m >>= f).run s = (.ok b, s')) :
    ∃ a s₁, m.run s = (.ok a, s₁) ∧ (f a).run s₁ = (.ok b, s') := by
  rw [run_bind] at h
  rcases hm : m.run s with ⟨_ | a, s₁⟩
  · simp [hm] at h
  · exact ⟨a, s₁, rfl, by simpa [hm] using h⟩

theorem run_tryExcept_of_ok {m : Prog σ α} {handler : PyExc → Option (Prog σ α)} {s s' : σ} {a : α}
    (h : m.run s = (.ok a, s')) : (tryExcept m handler).run s = (.ok a, s') := by
  change (match m.run s with
    | (.ok a, s') => (.ok a, s')
    | (.error e, s') => _ : Except PyExc α × σ) = _
  rw [h]

theorem run_tryExcept_of_catch {m p : Prog σ α} {handler : PyExc → Option (Prog σ α)} {s s' : σ}
    {e : PyExc} (h : m.run s = (.error e, s')) (hh : handler e = some p) :
    (tryExcept m handler).run s = p.run s' := by
  change (match m.run s with
    | (.ok a, s') => (.ok a, s')
    | (.error e, s') => match handler e with
      | some h => h s'
      | none => (.error e, s') : Except PyExc α × σ) = _
  rw [h]
  simp only [hh]
  rfl

theorem run_tryExcept_of_pass {m : Prog σ α} {handler : PyExc → Option (Prog σ α)} {s s' : σ}
    {e : PyExc} (h : m.run s = (.error e, s')) (hh : handler e = none) :
    (tryExcept m handler).run s = (.error e, s') := by
  change (match m.run s with
    | (.ok a, s') => (.ok a, s')
    | (.error e, s') => match handler e with
      | some h => h s'
      | none => (.error e, s') : Except PyExc α × σ) = _
  rw [h]
  simp only [hh]

theorem forM_cons (x : β) (xs : List β) (body : β → Prog σ Unit) :
    forM (x :: xs) body = (body x >>= fun _ => forM xs body) := rfl

/-- A loop over two lists that returned on the first goes on with the second. -/
theorem run_forM_append {body : β → Prog σ Unit} {ys : List β} : {xs : List β} → {s s' : σ} →
    (forM xs body).run s = (.ok (), s') →
      (forM (xs ++ ys) body).run s = (forM ys body).run s'
  | [], s, s', h => by
      obtain rfl : s = s' := congrArg Prod.snd h
      rfl
  | x :: xs, s, s', h => by
      obtain ⟨_, s₁, hx, hxs⟩ := run_bind_ok h
      exact (run_bind_of_ok hx).trans (run_forM_append hxs)

theorem run_forM_singleton {body : β → Prog σ Unit} (x : β) (s : σ) :
    (forM [x] body).run s = (body x).run s := by
  rw [forM_cons, run_bind]
  rcases (body x).run s with ⟨_ | _, s'⟩ <;> rfl

/-! ### Triples -/

/-- The postcondition of an outcome: `Q` of a returned value, `E` of a raised exception. -/
def Post (Q : α → σ → Prop) (E : PyExc → σ → Prop) : Except PyExc α × σ → Prop
  | (.ok a, s) => Q a s
  | (.error e, s) => E e s

namespace Post

variable {m : Prog σ α} {s : σ} {Q Q' : α → σ → Prop} {E E' : PyExc → σ → Prop}

theorem imp {out : Except PyExc α × σ} (h : Post Q E out) (hQ : ∀ a s, Q a s → Q' a s)
    (hE : ∀ e s, E e s → E' e s) : Post Q' E' out := by
  rcases out with ⟨e | a, s⟩
  · exact hE e s h
  · exact hQ a s h

/-- The second half of a sequence runs from where the first returned. -/
theorem bind {f : α → Prog σ β} {R : β → σ → Prop} (hm : Post Q E (m.run s))
    (hf : ∀ a s', Q a s' → Post R E' ((f a).run s')) (hE : ∀ e s', E e s' → E' e s') :
    Post R E' ((m >>= f).run s) := by
  rcases hr : m.run s with ⟨e | a, s'⟩
  · rw [run_bind_of_error hr]
    rw [hr] at hm
    exact hE e s' hm
  · rw [run_bind_of_ok hr]
    rw [hr] at hm
    exact hf a s' hm

end Post

/-- From a state with `P` the program returns in a state with `Q`, or raises in one with `E`. -/
def Triple (P : σ → Prop) (m : Prog σ α) (Q : α → σ → Prop) (E : PyExc → σ → Prop) : Prop :=
  ∀ s, P s → Post Q E (m.run s)

namespace Triple

variable {P : σ → Prop} {m : Prog σ α} {Q : α → σ → Prop} {E : PyExc → σ → Prop}

theorem pure {a : α} (h : ∀ s, P s → Q a s) : Triple P (Pure.pure a) Q E := h

theorem raise {e : PyExc} (h : ∀ s, P s → E e s) : Triple P (Prog.raise e : Prog σ α) Q E := h

theorem modify {f : σ → σ} {Q : Unit → σ → Prop} (h : ∀ s, P s → Q () (f s)) :
    Triple P (Prog.modify f) Q E := h

theorem get {Q : σ → σ → Prop} (h : ∀ s, P s → Q s s) : Triple P Prog.get Q E := h

theorem ofExcept {x : Except PyExc α} (hok : ∀ a s, x = .ok a → P s → Q a s)
    (herr : ∀ e s, x = .error e → P s → E e s) : Triple P (Prog.ofExcept x) Q E := by
  intro s hs
  cases x with
  | ok a => exact hok a s rfl hs
  | error e => exact herr e s rfl hs

theorem weaken {P' : σ → Prop} {Q' : α → σ → Prop} {E' : PyExc → σ → Prop}
    (h : Triple P m Q E) (hP : ∀ s, P' s → P s) (hQ : ∀ a s, Q a s → Q' a s)
    (hE : ∀ e s, E e s → E' e s) : Triple P' m Q' E' := fun s hs => (h s (hP s hs)).imp hQ hE

/-- The rule of a sequence. -/
theorem bind {f : α → Prog σ β} {R : β → σ → Prop} (hm : Triple P m Q E)
    (hf : ∀ a, Triple (Q a) (f a) R E) : Triple P (m >>= f) R E := fun s hs =>
  (hm s hs).bind hf fun _ _ he => he

/-- The rule of `try`: the exceptions the handler declines pass through. -/
theorem tryExcept {handler : PyExc → Option (Prog σ α)} {E' : PyExc → σ → Prop}
    (hm : Triple P m Q E) (hcatch : ∀ e h, handler e = some h → Triple (E e) h Q E')
    (hpass : ∀ e s, handler e = none → E e s → E' e s) :
    Triple P (Prog.tryExcept m handler) Q E' := by
  intro s hs
  have h := hm s hs
  rcases hr : m.run s with ⟨e | a, s'⟩
  · rw [hr] at h
    cases hh : handler e with
    | none =>
      rw [run_tryExcept_of_pass hr hh]
      exact hpass e s' hh h
    | some p =>
      rw [run_tryExcept_of_catch hr hh]
      exact hcatch e p hh s' h
  · rw [run_tryExcept_of_ok hr]
    rwa [hr] at h

/-- The rule of a `for` loop: `I done` is the invariant after the elements `done`. -/
theorem forM {body : β → Prog σ Unit} (I : List β → σ → Prop) (xs : List β)
    (hbody : ∀ done x todo, done ++ x :: todo = xs →
      Triple (I done) (body x) (fun _ => I (done ++ [x])) E) :
    Triple (I []) (Prog.forM xs body) (fun _ => I xs) E := by
  suffices h : ∀ todo done, done ++ todo = xs →
      Triple (I done) (Prog.forM todo body) (fun _ => I xs) E from h xs [] rfl
  intro todo
  induction todo with
  | nil =>
    intro done hdone
    rw [List.append_nil] at hdone
    subst hdone
    exact pure fun _ hs => hs
  | cons x todo ih =>
    intro done hdone
    exact bind (hbody done x todo hdone) fun _ => ih (done ++ [x]) (by simpa using hdone)

/-- What holds however a program ends, holds of the state it leaves. -/
theorem final {R : σ → Prop} (h : Triple P m (fun _ => R) fun _ => R) {s : σ} (hs : P s) :
    R (m.run s).2 := by
  have hpost := h s hs
  rcases hr : m.run s with ⟨e | a, s'⟩ <;> rwa [hr] at hpost

end Triple

/-! ### Programs that never raise -/

/-- The program returns from every state. -/
def Total (m : Prog σ α) : Prop := ∀ s, (m.run s).1.isOk

namespace Total

variable {m : Prog σ α}

theorem pure (a : α) : Total (Pure.pure a : Prog σ α) := fun _ => rfl

theorem get : Total (Prog.get : Prog σ σ) := fun _ => rfl

theorem modify (f : σ → σ) : Total (Prog.modify f) := fun _ => rfl

theorem ofExcept {x : Except PyExc α} (h : x.isOk) :
    Total (Prog.ofExcept x : Prog σ α) := fun _ => h

theorem zoom {τ : Type} {part : σ → τ} {set : τ → σ → σ} {m : Prog τ α} (h : Total m) :
    Total (Prog.zoom part set m) := fun s => h (part s)

theorem bind {f : α → Prog σ β} (hm : Total m) (hf : ∀ a, Total (f a)) : Total (m >>= f) := by
  intro s
  have h := hm s
  rcases hr : m.run s with ⟨e | a, s'⟩
  · rw [hr] at h
    exact absurd h nofun
  · rw [run_bind_of_ok hr]
    exact hf a s'

theorem forM {body : β → Prog σ Unit} (h : ∀ x, Total (body x)) :
    (xs : List β) → Total (Prog.forM xs body)
  | [] => pure ()
  | x :: xs => bind (h x) fun _ => forM h xs

end Total

/-! ### Programs that keep an invariant -/

/-- From a state with `I` the program ends in one with `I`, whether it returns or raises. -/
def Keeps (I : σ → Prop) (m : Prog σ α) : Prop := ∀ s, I s → I (m.run s).2

namespace Keeps

variable {I : σ → Prop} {m : Prog σ α}

theorem pure (a : α) : Keeps I (Pure.pure a : Prog σ α) := fun _ hs => hs

theorem raise (e : PyExc) : Keeps I (Prog.raise e : Prog σ α) := fun _ hs => hs

theorem get : Keeps I (Prog.get : Prog σ σ) := fun _ hs => hs

theorem modify {f : σ → σ} (h : ∀ s, I s → I (f s)) : Keeps I (Prog.modify f) := h

theorem ofExcept (x : Except PyExc α) : Keeps I (Prog.ofExcept x : Prog σ α) := fun _ hs => hs

theorem zoom {τ : Type} {part : σ → τ} {set : τ → σ → σ} {m : Prog τ α}
    (h : ∀ s, I s → I (set (m.run (part s)).2 s)) : Keeps I (Prog.zoom part set m) := h

theorem bind {f : α → Prog σ β} (hm : Keeps I m) (hf : ∀ a, Keeps I (f a)) :
    Keeps I (m >>= f) := by
  intro s hs
  have h := hm s hs
  rcases hr : m.run s with ⟨e | a, s'⟩
  · rw [hr] at h
    rwa [run_bind_of_error hr]
  · rw [hr] at h
    rw [run_bind_of_ok hr]
    exact hf a s' h

theorem tryExcept {handler : PyExc → Option (Prog σ α)} (hm : Keeps I m)
    (hh : ∀ e p, handler e = some p → Keeps I p) : Keeps I (Prog.tryExcept m handler) := by
  intro s hs
  have h := hm s hs
  rcases hr : m.run s with ⟨e | a, s'⟩
  · rw [hr] at h
    cases hhandler : handler e with
    | none => rwa [run_tryExcept_of_pass hr hhandler]
    | some p =>
      rw [run_tryExcept_of_catch hr hhandler]
      exact hh e p hhandler s' h
  · rw [hr] at h
    rwa [run_tryExcept_of_ok hr]

theorem forM {body : β → Prog σ Unit} : {xs : List β} → (∀ x ∈ xs, Keeps I (body x)) →
    Keeps I (Prog.forM xs body)
  | [], _ => pure ()
  | _ :: _, h => bind (h _ List.mem_cons_self) fun _ =>
      forM fun x hx => h x (List.mem_cons_of_mem _ hx)

/-- An invariant as a triple. -/
theorem triple (h : Keeps I m) : Triple I m (fun _ => I) fun _ => I := by
  intro s hs
  have hI := h s hs
  rcases hr : m.run s with ⟨e | a, s'⟩ <;> rwa [hr] at hI

end Keeps

/-- A triple with an invariant the program keeps. -/
theorem Triple.and_keeps {P I : σ → Prop} {m : Prog σ α} {Q : α → σ → Prop}
    {E : PyExc → σ → Prop} (h : Triple P m Q E) (hkeeps : Keeps I m) :
    Triple (fun s => P s ∧ I s) m (fun a s => Q a s ∧ I s) fun e s => E e s ∧ I s := by
  rintro s ⟨hs, hI⟩
  have hpost := h s hs
  have hI' := hkeeps s hI
  rcases hr : m.run s with ⟨e | a, s'⟩ <;> rw [hr] at hpost hI' <;> exact ⟨hpost, hI'⟩

end Prog

end C2Engine.Python
