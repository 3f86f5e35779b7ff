import Mathlib.Tactic

/-!
# A directory of a volume

Names that refer to numbered files, and the calls that change them. A call can always
fail with an error of the system's own; otherwise its answer is the one the directory
determines. A file that is created gets a number no name refers to.
-/

set_option autoImplicit false

namespace Yvex.DirectoryVolume

abbrev Name := List Char

inductive Errno where
  | enoent
  | eexist
  | enosys
  | einval
  | other (code : ℕ)
  deriving DecidableEq

inductive Fault where
  | enosys
  | einval
  | other (code : ℕ)
  deriving DecidableEq

def Fault.errno : Fault → Errno
  | .enosys => .enosys
  | .einval => .einval
  | .other code => .other code

structure Volume (Content : Type) where
  entries : Name → Option ℕ
  data : ℕ → Content
  next : ℕ
  fresh : ∀ name file, entries name = some file → file < next

namespace Volume

variable {Content : Type} (volume v : Volume Content)

def lookup (name : Name) : Option ℕ := if name = [] then none else volume.entries name

def bind (name : Name) (file : Option ℕ) (known : ∀ number, file = some number →
    number < volume.next) : Volume Content where
  entries := Function.update volume.entries name file
  data := volume.data
  next := volume.next
  fresh other number found := by
    rw [Function.update_apply] at found
    split_ifs at found
    · exact known number found
    · exact volume.fresh other number found

def free (name : Name) : Volume Content :=
  volume.bind name none fun _ impossible => by cases impossible

def create (name : Name) (content : Content) : Volume Content where
  entries := Function.update volume.entries name (some volume.next)
  data := Function.update volume.data volume.next content
  next := volume.next + 1
  fresh other number found := by
    rw [Function.update_apply] at found
    split_ifs at found
    · cases found
      exact Nat.lt_succ_self _
    · exact Nat.lt_succ_of_lt (volume.fresh other number found)

def store (file : ℕ) (content : Content) : Volume Content :=
  { volume with data := Function.update volume.data file content }

def openExclusive (fault : Option Fault) (name : Name) (content : Content) :
    Except Errno (Volume Content) :=
  match fault with
  | some fault => .error fault.errno
  | none =>
    if name = [] then .error .enoent
    else match volume.entries name with
      | some _ => .error .eexist
      | none => .ok (volume.create name content)

theorem known {n : Name} {f : ℕ} (hf : v.lookup n = some f) : f < v.next := by
  unfold lookup at hf
  split_ifs at hf
  exact v.fresh n f hf

def link (fault : Option Fault) (source target : Name) : Except Errno (Volume Content) :=
  match fault with
  | some fault => .error fault.errno
  | none =>
    match found : volume.lookup source with
    | none => .error .enoent
    | some file =>
      if target = [] then .error .enoent
      else match volume.entries target with
        | some _ => .error .eexist
        | none => .ok (volume.bind target (some file) fun _ same => by
            cases same
            exact volume.known found)

def unlink (fault : Option Fault) (name : Name) : Except Errno (Volume Content) :=
  match fault with
  | some fault => .error fault.errno
  | none =>
    match volume.lookup name with
    | none => .error .enoent
    | some _ => .ok (volume.free name)

def renameNoReplace (fault : Option Fault) (source target : Name) :
    Except Errno (Volume Content) := do
  let linked ← volume.link fault source target
  return linked.free source

variable {v} {fl : Option Fault} {n s t : Name} {a : Volume Content}

@[simp] theorem bind_entries {f : Option ℕ} {known} (o : Name) : (v.bind n f known).entries o =
      if o = n then f else v.entries o :=
  Function.update_apply ..

@[simp] theorem free_entries (o : Name) :
    (v.free n).entries o = if o = n then none else v.entries o :=
  bind_entries o

@[simp] theorem free_data : (v.free n).data = v.data := rfl

theorem lookup_some {f : ℕ} (hf : v.lookup n = some f) : n ≠ [] ∧ v.entries n = some f := by
  unfold lookup at hf
  split_ifs at hf with he
  exact ⟨he, hf⟩

theorem openExclusive_ok {c : Content} (ho : v.openExclusive fl n c = .ok a) :
    n ≠ [] ∧ v.entries n = none ∧ a = v.create n c := by
  unfold openExclusive at ho
  cases fl with
  | some => cases ho
  | none =>
    by_cases he : n = []
    · simp [he] at ho
    cases hf : v.entries n with
    | some => simp [he, hf] at ho
    | none =>
      simp only [he, hf, if_false, Except.ok.injEq] at ho
      exact ⟨he, rfl, ho.symm⟩

theorem link_ok (hl : v.link fl s t = .ok a) :
    ∃ f, s ≠ [] ∧ v.entries s = some f ∧ v.entries t = none ∧ (∀ o, a.entries o =
        if o = t then some f else v.entries o) ∧
      a.data = v.data := by
  unfold link at hl
  cases fl with
  | some => cases hl
  | none =>
    dsimp only at hl
    split at hl
    · cases hl
    rename_i f hf
    obtain ⟨hn, e⟩ := lookup_some hf
    split at hl
    · cases hl
    split at hl
    · cases hl
    · rename_i hv
      cases hl
      exact ⟨f, hn, e, hv, fun o => bind_entries o, rfl⟩

/-- A rename that succeeds moves one entry to a free name. -/
theorem renameNoReplace_ok (hr : v.renameNoReplace fl s t = .ok a) :
    ∃ f, s ≠ [] ∧ v.entries s = some f ∧ v.entries t = none ∧
      (∀ o, a.entries o = if o = s then none else
        if o = t then some f else v.entries o) ∧
      a.data = v.data := by
  unfold renameNoReplace at hr
  cases hl : v.link fl s t with
  | error =>
    rw [hl] at hr
    cases hr
  | ok =>
    rw [hl] at hr
    cases hr
    obtain ⟨f, hn, e, hv, en, data⟩ := link_ok hl
    refine ⟨f, hn, e, hv, fun o => ?_, data⟩
    rw [free_entries, en]

theorem unlink_ok (hu : v.unlink fl n = .ok a) : n ≠ [] ∧ a = v.free n := by
  unfold unlink at hu
  cases fl with
  | some => cases hu
  | none =>
    cases hf : v.lookup n with
    | none => simp [hf] at hu
    | some =>
      simp only [hf, Except.ok.injEq] at hu
      exact ⟨(lookup_some hf).1, hu.symm⟩

end Volume

end Yvex.DirectoryVolume
