import IoJournal.Wire.Bytes

/-!
# Posix.Disk

What a program does to the system it runs on, as a list of effects, and the files that such a list
leaves behind.

* `Effect` is one thing that happened: a descriptor opened or closed, octets that reached a file, a
  rename or an unlink with its outcome, octets that left through a socket or standard output.
* `Disk` is the files by name, together with what every rename moved. A rename replaces its target.
* `Disk.run` applies the effects in order (`Disk.run_append`).
-/

namespace Posix

open Wire

inductive Effect where
  | openFd (fd : Nat)
  | closeFd (fd : Nat)
  | create (path : Bytes)
  | append (path : Bytes) (octets : Bytes)
  | rename (old new : Bytes) (done : Bool)
  | unlink (path : Bytes) (done : Bool)
  | stdout (octets : Bytes)
  | send (fd : Int) (octets : Bytes)
  deriving DecidableEq

structure Disk where
  files : Bytes → Option Bytes
  /-- The target of every rename so far and the contents it moved. -/
  moved : List (Bytes × Bytes)

namespace Disk

def contents (d : Disk) (path : Bytes) : Bytes := (d.files path).getD []

def set (d : Disk) (path : Bytes) (value : Option Bytes) : Disk :=
  { d with files := fun p => if p = path then value else d.files p }

def apply (d : Disk) : Effect → Disk
  | .create path => d.set path (some (d.contents path))
  | .append path octets => d.set path ((d.files path).map (· ++ octets))
  | .rename old new true =>
    { (d.set new (d.files old)).set old none with moved := d.moved ++ [(new, d.contents old)] }
  | .unlink path true => d.set path none
  | _ => d

def run (d : Disk) (es : List Effect) : Disk := es.foldl apply d

@[simp] theorem run_nil (d : Disk) : d.run [] = d := rfl

@[simp] theorem run_cons (d : Disk) (e : Effect) (es : List Effect) : d.run (e :: es) = (d.apply e).run es := rfl

theorem run_append (d : Disk) (es es' : List Effect) : d.run (es ++ es') = (d.run es).run es' := by
  rw [run, List.foldl_append]
  rfl

@[simp] theorem set_files_self (d : Disk) (path : Bytes) (value : Option Bytes) :
    (d.set path value).files path = value := if_pos rfl

theorem set_files_other (d : Disk) {path p : Bytes} (h : p ≠ path) (value : Option Bytes) :
    (d.set path value).files p = d.files p := if_neg h

theorem apply_append_nil (d : Disk) (path : Bytes) : d.apply (.append path []) = d := by
  have hsame : ∀ p, (d.apply (.append path [])).files p = d.files p := by
    intro p
    by_cases hp : p = path
    · subst hp
      simp [apply]
    · exact set_files_other d hp _
  exact congrArg (Disk.mk · d.moved) (funext hsame)

theorem run_unlinks (done : Bytes → Bool) (ps : List Bytes) (d : Disk) :
    (∀ p, (d.run (ps.map fun p => .unlink p (done p))).files p =
      if p ∈ ps ∧ done p = true then none else d.files p) ∧
    (d.run (ps.map fun p => .unlink p (done p))).moved = d.moved := by
  induction ps generalizing d with
  | nil => exact ⟨fun p => (if_neg (fun h => List.not_mem_nil h.1)).symm, rfl⟩
  | cons q ps ih =>
    simp only [List.map_cons, run_cons]
    cases hq : done q with
    | false =>
      refine ⟨fun p => ?_, (ih d).2⟩
      have hmem : (p ∈ q :: ps ∧ done p = true) ↔ (p ∈ ps ∧ done p = true) := by
        constructor
        · rintro ⟨hp, hdone⟩
          rcases List.mem_cons.1 hp with rfl | hp
          · rw [hq] at hdone
            cases hdone
          · exact ⟨hp, hdone⟩
        · exact fun h => ⟨List.mem_cons_of_mem _ h.1, h.2⟩
      rw [if_congr hmem rfl rfl]
      exact (ih d).1 p
    | true =>
      obtain ⟨hfiles, hmoved⟩ := ih (d.set q none)
      refine ⟨fun p => (hfiles p).trans ?_, hmoved⟩
      by_cases hp : p = q
      · subst hp
        simp [hq]
      · simp [hp, set_files_other d hp]

/-- No rename of the list has a target that exists when the rename is called. -/
def Fresh : Disk → List Effect → Prop
  | _, [] => True
  | d, .rename old new done :: es => d.files new = none ∧ (d.apply (.rename old new done)).Fresh es
  | d, e :: es => (d.apply e).Fresh es

instance decidableFresh : (d : Disk) → (es : List Effect) → Decidable (d.Fresh es)
  | _, [] => isTrue trivial
  | d, .rename old new done :: es =>
    have := decidableFresh (d.apply (.rename old new done)) es
    inferInstanceAs (Decidable (d.files new = none ∧ (d.apply (.rename old new done)).Fresh es))
  | d, .openFd _ :: es => decidableFresh d es
  | d, .closeFd _ :: es => decidableFresh d es
  | d, .create path :: es => decidableFresh (d.apply (.create path)) es
  | d, .append path octets :: es => decidableFresh (d.apply (.append path octets)) es
  | d, .unlink path done :: es => decidableFresh (d.apply (.unlink path done)) es
  | d, .stdout _ :: es => decidableFresh d es
  | d, .send _ _ :: es => decidableFresh d es

theorem fresh_append (d : Disk) (es es' : List Effect) :
    d.Fresh (es ++ es') ↔ d.Fresh es ∧ (d.run es).Fresh es' := by
  induction es generalizing d with
  | nil => exact (true_and _).to_iff.symm
  | cons e es ih =>
    cases e <;> simp [Fresh, ih, and_assoc]

def NoRename : Effect → Prop
  | .rename _ _ _ => False
  | _ => True

theorem fresh_of_noRename (d : Disk) {es : List Effect} (h : ∀ e ∈ es, NoRename e) : d.Fresh es := by
  induction es generalizing d with
  | nil => trivial
  | cons e es ih =>
    have hes : ∀ d' : Disk, d'.Fresh es := fun d' => ih d' fun e' he' => h e' (List.mem_cons_of_mem _ he')
    cases e with
    | rename old new done => exact (h _ List.mem_cons_self).elim
    | openFd => exact hes _
    | closeFd => exact hes _
    | create => exact hes _
    | append => exact hes _
    | unlink => exact hes _
    | stdout => exact hes _
    | send => exact hes _

theorem fresh_one_rename (d : Disk) {before after : List Effect} (hbefore : ∀ e ∈ before, NoRename e)
    (hafter : ∀ e ∈ after, NoRename e) (old new : Bytes) (done : Bool) :
    d.Fresh (before ++ [.rename old new done] ++ after) ↔ (d.run before).files new = none := by
  rw [List.append_assoc, fresh_append]
  constructor
  · exact fun h => h.2.1
  · exact fun h => ⟨fresh_of_noRename d hbefore, h, fresh_of_noRename _ hafter⟩

end Disk
end Posix
