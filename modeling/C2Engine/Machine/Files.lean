import Mathlib.Data.List.Basic
import Mathlib.Logic.Function.Basic
import Mathlib.Order.Nat
import Mathlib.Tactic.SplitIfs

/-!
# Files that several writers share

A directory gives names to files, and a file is known apart from its name: who has opened it goes on
writing to it when the name is taken away or given to another file. Opening a file to write empties
it, or makes a new one, and each writer has an offset of its own.

## Main definitions

* `writeAt`: the bytes of a file after a write at an offset.
* `RightUpTo`: a file agrees with what it is to hold, up to a position.
* `Directory`, `Directory.openWrite`, `Directory.write`, `Directory.rename`: the calls.
* `Directory.Sound`: no file has two names.

## Main results

* `rightUpTo_writeAt`, `rightUpTo_writeAt_self`, `writeAt_self`: what a writer with the right bytes
  does to a file.
-/

namespace C2Engine.Machine

/-! ### The bytes of a file -/

/-- The bytes of a file after a write at an offset. A gap before the offset is filled with zeros. -/
def writeAt (file : List UInt8) (offset : ℕ) (data : List UInt8) : List UInt8 :=
  file.take offset ++ List.replicate (offset - file.length) 0 ++ data ++
    file.drop (offset + data.length)

/-- The bytes up to a position are those the file is to hold. -/
def RightUpTo (p : ℕ) (content file : List UInt8) : Prop := ∀ j < p, file[j]? = content[j]?

/-- The next bytes a writer hands on. -/
def chunk (content : List UInt8) (offset n : ℕ) : List UInt8 := (content.drop offset).take n

theorem getElem?_writeAt (file data : List UInt8) (offset j : ℕ) :
    (writeAt file offset data)[j]? =
      if j < offset then (if j < file.length then file[j]? else some 0)
      else if j < offset + data.length then data[j - offset]? else file[j]? := by
  have hlen : (file.take offset ++ List.replicate (offset - file.length) (0 : UInt8)).length =
      offset := by
    rw [List.length_append, List.length_take, List.length_replicate]
    omega
  rw [writeAt, List.append_assoc]
  by_cases hj : j < offset
  · rw [if_pos hj, List.getElem?_append_left (by rw [hlen]; exact hj)]
    by_cases hin : j < file.length
    · rw [if_pos hin, List.getElem?_append_left (by rw [List.length_take]; omega),
        List.getElem?_take, if_pos hj]
    · rw [if_neg hin, List.getElem?_append_right (by rw [List.length_take]; omega),
        List.getElem?_replicate, if_pos (by rw [List.length_take]; omega)]
  · rw [if_neg hj, List.getElem?_append_right (by rw [hlen]; omega), hlen]
    by_cases hdata : j < offset + data.length
    · rw [if_pos hdata, List.getElem?_append_left (by omega)]
    · rw [if_neg hdata, List.getElem?_append_right (by omega), List.getElem?_drop]
      congr 1
      omega

theorem length_writeAt (file data : List UInt8) (offset : ℕ) :
    (writeAt file offset data).length = max (offset + data.length) file.length := by
  rw [writeAt, List.length_append, List.length_append, List.length_append, List.length_take,
    List.length_replicate, List.length_drop]
  omega

theorem getElem?_chunk (content : List UInt8) (offset n j : ℕ) :
    (chunk content offset n)[j]? = if j < n then content[offset + j]? else none := by
  rw [chunk, List.getElem?_take]
  split_ifs with h
  · rw [List.getElem?_drop]
  · rfl

theorem length_chunk (content : List UInt8) (offset n : ℕ) :
    (chunk content offset n).length = min n (content.length - offset) := by
  rw [chunk, List.length_take, List.length_drop]

/-- A file that is right up to the end of its content, and no longer, is whole. -/
theorem eq_of_rightUpTo {content file : List UInt8} (hright : RightUpTo content.length content file)
    (hlen : file.length ≤ content.length) : file = content := by
  refine List.ext_getElem? fun j => ?_
  by_cases hj : j < content.length
  · exact hright j hj
  · rw [List.getElem?_eq_none (by omega), List.getElem?_eq_none (by omega)]

/-- Right bytes at their place leave right what is right. -/
theorem rightUpTo_writeAt {content file : List UInt8} {p offset n : ℕ} (hp : p ≤ content.length)
    (hright : RightUpTo p content file) :
    RightUpTo p content (writeAt file offset (chunk content offset n)) := by
  intro j hj
  have hin : j < file.length := by
    by_contra hout
    have heq := hright j hj
    rw [List.getElem?_eq_none (by omega), List.getElem?_eq_getElem (by omega)] at heq
    cases heq
  rw [getElem?_writeAt, if_pos hin]
  split_ifs with hbefore hdata
  · exact hright j hj
  · rw [length_chunk] at hdata
    rw [getElem?_chunk, if_pos (by omega)]
    congr 1
    omega
  · exact hright j hj

/-- The writer's own part grows. -/
theorem rightUpTo_writeAt_self {content file : List UInt8} {offset n : ℕ}
    (hoffset : offset ≤ content.length) (hright : RightUpTo offset content file) :
    RightUpTo (offset + (chunk content offset n).length) content
      (writeAt file offset (chunk content offset n)) := by
  intro j hj
  by_cases hbefore : j < offset
  · exact rightUpTo_writeAt hoffset hright j hbefore
  · rw [getElem?_writeAt, if_neg hbefore, if_pos hj]
    rw [length_chunk] at hj
    rw [getElem?_chunk, if_pos (by omega)]
    congr 1
    omega

/-- Right bytes at their place leave a whole file as it is. -/
theorem writeAt_self {content : List UInt8} {offset n : ℕ} (hoffset : offset ≤ content.length) :
    writeAt content offset (chunk content offset n) = content := by
  refine eq_of_rightUpTo (rightUpTo_writeAt le_rfl fun _ _ => rfl) ?_
  rw [length_writeAt, length_chunk]
  omega

theorem length_writeAt_le {content file : List UInt8} {offset n : ℕ}
    (hoffset : offset ≤ content.length) (hlen : file.length ≤ content.length) :
    (writeAt file offset (chunk content offset n)).length ≤ content.length := by
  rw [length_writeAt, length_chunk]
  omega

/-! ### Directories -/

/-- A directory: the file each name stands for, and the bytes of each file. -/
structure Directory (ν : Type) where
  entry : ν → Option ℕ
  file : ℕ → List UInt8
  /-- No file from here on is in use. -/
  fresh : ℕ

namespace Directory

variable {ν : Type} [DecidableEq ν]

/-- `open(name, "wb")`: the directory and the file. -/
def openWrite (d : Directory ν) (name : ν) : Directory ν × ℕ :=
  match d.entry name with
  | some x => ({ d with file := Function.update d.file x [] }, x)
  | none => (⟨Function.update d.entry name (some d.fresh), Function.update d.file d.fresh [],
      d.fresh + 1⟩, d.fresh)

/-- A write to an open file. -/
def write (d : Directory ν) (x offset : ℕ) (data : List UInt8) : Directory ν :=
  { d with file := Function.update d.file x (writeAt (d.file x) offset data) }

/-- `os.rename(old, new)` of the file `x` under the old name. -/
def rename (d : Directory ν) (old new : ν) (x : ℕ) : Directory ν :=
  { d with entry := Function.update (Function.update d.entry old none) new (some x) }

/-- No file has two names, and the files that have one are in use. -/
structure Sound (d : Directory ν) : Prop where
  injective : ∀ {name name' x}, d.entry name = some x → d.entry name' = some x → name = name'
  used : ∀ {name x}, d.entry name = some x → x < d.fresh

variable {d : Directory ν} {name name' : ν} {x y : ℕ}

section

omit [DecidableEq ν]

@[simp] theorem entry_write {offset : ℕ} {data : List UInt8} :
    (d.write x offset data).entry = d.entry :=
  rfl

@[simp] theorem fresh_write {offset : ℕ} {data : List UInt8} :
    (d.write x offset data).fresh = d.fresh :=
  rfl

theorem file_write {offset : ℕ} {data : List UInt8} :
    (d.write x offset data).file y =
      if y = x then writeAt (d.file x) offset data else d.file y :=
  Function.update_apply _ _ _ _

theorem Sound.write (h : d.Sound) {offset : ℕ} {data : List UInt8} :
    (d.write x offset data).Sound :=
  ⟨h.injective, h.used⟩

end

theorem entry_openWrite :
    (d.openWrite name).1.entry name' =
      if name' = name then some (d.openWrite name).2 else d.entry name' := by
  rw [openWrite]
  cases h : d.entry name with
  | none => exact Function.update_apply _ _ _ _
  | some x =>
    dsimp only
    split_ifs with heq
    · rw [heq, h]
    · rfl

theorem file_openWrite :
    (d.openWrite name).1.file x = if x = (d.openWrite name).2 then [] else d.file x := by
  rw [openWrite]
  cases h : d.entry name with
  | none => exact Function.update_apply _ _ _ _
  | some y => exact Function.update_apply _ _ _ _

theorem fresh_le_openWrite : d.fresh ≤ (d.openWrite name).1.fresh := by
  rw [openWrite]
  cases d.entry name with
  | none => exact Nat.le_succ _
  | some y => exact le_rfl

/-- The file that is opened is the one under the name, or a new one. -/
theorem openWrite_snd (d : Directory ν) (name : ν) : d.entry name = some (d.openWrite name).2 ∨
    d.entry name = none ∧ (d.openWrite name).2 = d.fresh := by
  rw [openWrite]
  cases h : d.entry name with
  | none => exact .inr ⟨rfl, rfl⟩
  | some y => exact .inl rfl

theorem Sound.openWrite_lt (h : d.Sound) : (d.openWrite name).2 < (d.openWrite name).1.fresh := by
  rw [openWrite]
  cases hname : d.entry name with
  | none => exact Nat.lt_succ_self _
  | some y => exact h.used hname

theorem Sound.openWrite (h : d.Sound) : (d.openWrite name).1.Sound where
  injective {a b x} ha hb := by
    rw [entry_openWrite] at ha hb
    -- a file that has been opened under this name has no other
    have hother : ∀ {c}, d.entry c = some (d.openWrite name).2 → c = name := by
      intro c hc
      rcases openWrite_snd d name with hname | ⟨-, hfresh⟩
      · exact h.injective hc hname
      · rw [hfresh] at hc
        exact absurd (h.used hc) (lt_irrefl _)
    split_ifs at ha hb with hname hname' hname'
    · rw [hname, hname']
    · rw [hname, hother (hb.trans ha.symm)]
    · rw [hname', hother (ha.trans hb.symm)]
    · exact h.injective ha hb
  used {a x} ha := by
    rw [entry_openWrite] at ha
    split_ifs at ha
    · rw [← Option.some.inj ha]
      exact h.openWrite_lt
    · exact (h.used ha).trans_le fresh_le_openWrite

@[simp] theorem file_rename {old new : ν} : (d.rename old new x).file = d.file :=
  rfl

@[simp] theorem fresh_rename {old new : ν} : (d.rename old new x).fresh = d.fresh :=
  rfl

theorem entry_rename {old new : ν} :
    (d.rename old new x).entry name =
      if name = new then some x else if name = old then none else d.entry name := by
  rw [rename]
  dsimp only
  rw [Function.update_apply, Function.update_apply]

theorem Sound.rename (h : d.Sound) {old new : ν} (hold : d.entry old = some x) :
    (d.rename old new x).Sound where
  injective {a b y} ha hb := by
    rw [entry_rename] at ha hb
    split_ifs at ha hb with ha₁ hb₁ hb₂ ha₂ hb₁ hb₂
    · rw [ha₁, hb₁]
    · exact absurd (h.injective hb (ha ▸ hold)) hb₂
    · exact absurd (h.injective ha (hb ▸ hold)) ha₂
    · exact h.injective ha hb
  used {a y} ha := by
    rw [entry_rename] at ha
    split_ifs at ha
    · exact Option.some.inj ha ▸ h.used hold
    · exact h.used ha

end Directory

end C2Engine.Machine
