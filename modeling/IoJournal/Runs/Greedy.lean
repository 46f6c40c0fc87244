import IoJournal.Runs.Machine

/-!
# Greedy

Records that are put into files one after another, into the same file as long as it is not full for the
next one.

* `Greedy f rs closed active`: from the file `f` on, the records `rs` fill the files `closed` and then
  `active`. A file takes each of its records while it is not full for it, and it is closed because it is
  full for the next one.
* `Greedy.snoc`: one more record.
-/

variable {φ α : Type} {full : φ → α → Prop} {add : φ → α → φ} {fresh : α → φ}

inductive Greedy (full : φ → α → Prop) (add : φ → α → φ) (fresh : α → φ) : φ → List α → List φ → φ → Prop where
  | last {f : φ} {rs : List α} (fits : Machine.Along add (fun f r => ¬full f r) f rs) :
      Greedy full add fresh f rs [] (Machine.run add f rs)
  | turn {f active : φ} {rs rest : List α} {r : α} {closed : List φ}
      (fits : Machine.Along add (fun f r => ¬full f r) f rs) (stops : full (Machine.run add f rs) r)
      (next : Greedy full add fresh (add (fresh r) r) rest closed active) :
      Greedy full add fresh f (rs ++ r :: rest) (Machine.run add f rs :: closed) active

namespace Greedy

variable {f active : φ} {rs : List α} {closed : List φ}

theorem start (f : φ) : Greedy full add fresh f [] [] f :=
  @last φ α full add fresh f [] trivial

theorem snoc (h : Greedy full add fresh f rs closed active) (r : α) :
    (¬full active r → Greedy full add fresh f (rs ++ [r]) closed (add active r)) ∧
      (full active r → Greedy full add fresh f (rs ++ [r]) (closed ++ [active]) (add (fresh r) r)) := by
  induction h with
  | @last f rs fits =>
    refine ⟨fun hfits => ?_, fun hfull => .turn fits hfull (.start _)⟩
    have hlast := @last φ α full add fresh f (rs ++ [r]) (Machine.along_snoc.2 ⟨fits, hfits⟩)
    rw [Machine.run_snoc] at hlast
    exact hlast
  | @turn f active rs rest r' closed fits stops next ih =>
    rw [List.append_assoc, List.cons_append]
    exact ⟨fun hfits => .turn fits stops (ih.1 hfits), fun hfull => .turn fits stops (ih.2 hfull)⟩

end Greedy
