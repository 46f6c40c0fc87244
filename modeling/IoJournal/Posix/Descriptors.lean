import IoJournal.Posix.Disk

/-!
# Posix.Descriptors

The descriptor table of a process, with the owner of every open descriptor.

* `Table.run who` applies effects that happen on behalf of `who`.
* `Unused` is the promise of the system that `open` returns a descriptor that is not in use.
* `Owned` says that every descriptor that is closed was opened by the one who closes it. A close of
  a descriptor that is not open closes nothing.
* `Keeps who held es held'` is a triple: if `who` owns `held`, then the effects close only what
  `who` owns, and after them `who` owns `held'`.
-/

namespace Posix

/-- The owner of each open descriptor. -/
def Table (ω : Type) : Type := Nat → Option ω

def Effect.isDescriptor : Effect → Bool
  | .openFd _ | .closeFd _ => true
  | _ => false

namespace Table

variable {ω : Type}

def set (t : Table ω) (fd : Nat) (owner : Option ω) : Table ω := fun n => if n = fd then owner else t n

theorem set_self (t : Table ω) (fd : Nat) (owner : Option ω) : t.set fd owner fd = owner := if_pos rfl

theorem set_other (t : Table ω) {fd n : Nat} (h : n ≠ fd) (owner : Option ω) : t.set fd owner n = t n := if_neg h

def apply (who : ω) (t : Table ω) : Effect → Table ω
  | .openFd fd => t.set fd (some who)
  | .closeFd fd => t.set fd none
  | _ => t

def run (who : ω) (t : Table ω) (es : List Effect) : Table ω := es.foldl (apply who) t

theorem run_append (who : ω) (t : Table ω) (es es' : List Effect) :
    t.run who (es ++ es') = (t.run who es).run who es' := List.foldl_append

/-- The descriptors that are opened are not in use. -/
def Unused (who : ω) : Table ω → List Effect → Prop
  | _, [] => True
  | t, e :: es => (∀ fd, e = .openFd fd → t fd = none) ∧ Unused who (t.apply who e) es

instance decidableUnused (who : ω) : (t : Table ω) → (es : List Effect) → Decidable (t.Unused who es)
  | _, [] => isTrue trivial
  | t, e :: es =>
    have : Decidable (∀ fd, e = .openFd fd → t fd = none) := match e with
      | .openFd fd => decidable_of_iff (t fd = none) ⟨fun h _ hn => Effect.openFd.inj hn ▸ h, fun h => h fd rfl⟩
      | .closeFd _ | .create _ | .append _ _ | .rename _ _ _ | .unlink _ _ | .stdout _ | .send _ _ =>
        isTrue fun _ h => nomatch h
    have : Decidable (Unused who (t.apply who e) es) := decidableUnused who (t.apply who e) es
    inferInstanceAs (Decidable (_ ∧ Unused who (t.apply who e) es))

/-- The descriptors that are closed are those of `who`, unless they are not open. -/
def Owned (who : ω) : Table ω → List Effect → Prop
  | _, [] => True
  | t, e :: es => (∀ fd, e = .closeFd fd → t fd = none ∨ t fd = some who) ∧ Owned who (t.apply who e) es

theorem unused_append {who : ω} {t : Table ω} {es es' : List Effect} :
    t.Unused who (es ++ es') ↔ t.Unused who es ∧ (t.run who es).Unused who es' := by
  induction es generalizing t with
  | nil => exact (true_and _).to_iff.symm
  | cons e es ih => simp only [List.cons_append, Unused, ih, and_assoc, run, List.foldl_cons]

theorem owned_append {who : ω} {t : Table ω} {es es' : List Effect} :
    t.Owned who (es ++ es') ↔ t.Owned who es ∧ (t.run who es).Owned who es' := by
  induction es generalizing t with
  | nil => exact (true_and _).to_iff.symm
  | cons e es ih => simp only [List.cons_append, Owned, ih, and_assoc, run, List.foldl_cons]

theorem owned_closeFd {who : ω} {t : Table ω} {fd : Nat} :
    t.Owned who [.closeFd fd] ↔ t fd = none ∨ t fd = some who := by
  refine ⟨fun h => h.1 fd rfl, fun h => ⟨fun n hn => ?_, trivial⟩⟩
  cases hn
  exact h

theorem Owned.others {who : ω} {t : Table ω} {es : List Effect} (h : t.Owned who es) (hopen : t.Unused who es)
    {fd : Nat} {owner : ω} (hfd : t fd = some owner) (hne : owner ≠ who) : t.run who es fd = some owner := by
  induction es generalizing t with
  | nil => exact hfd
  | cons e es ih =>
    refine ih h.2 hopen.2 ?_
    cases e with
    | openFd n =>
      have hn : fd ≠ n := by
        rintro rfl
        rw [hopen.1 fd rfl] at hfd
        cases hfd
      exact (set_other t hn _).trans hfd
    | closeFd n =>
      have hn : fd ≠ n := by
        rintro rfl
        rcases h.1 fd rfl with hnone | hown
        · rw [hnone] at hfd
          cases hfd
        · rw [hown] at hfd
          exact hne (Option.some.inj hfd).symm
      exact (set_other t hn _).trans hfd
    | create _ | append _ _ | rename _ _ _ | unlink _ _ | stdout _ | send _ _ => exact hfd

end Table

/-! ## Triples -/

/-- Effects that leave the table alone. -/
def Silent (es : List Effect) : Prop := ∀ e ∈ es, e.isDescriptor = false

theorem silent_nil : Silent [] := fun _ h => absurd h List.not_mem_nil

theorem silent_append {es es' : List Effect} (h : Silent es) (h' : Silent es') : Silent (es ++ es') := by
  intro e he
  rcases List.mem_append.1 he with he | he
  · exact h e he
  · exact h' e he

theorem silent_cons {e : Effect} {es : List Effect} (h : e.isDescriptor = false) (h' : Silent es) : Silent (e :: es) := by
  intro e' he
  rcases List.mem_cons.1 he with rfl | he
  · exact h
  · exact h' e' he

def Keeps {ω : Type} (who : ω) (held : List Nat) (es : List Effect) (held' : List Nat) : Prop :=
  ∀ t : Table ω, (∀ fd ∈ held, t fd = some who) → t.Unused who es →
    t.Owned who es ∧ ∀ fd ∈ held', t.run who es fd = some who

section Rules

variable {ω : Type} {who : ω} {held held' : List Nat} {es : List Effect}

theorem Keeps.append {es' : List Effect} {held'' : List Nat} (h : Keeps who held es held')
    (h' : Keeps who held' es' held'') : Keeps who held (es ++ es') held'' := by
  intro t ht hunused
  rw [Table.unused_append] at hunused
  obtain ⟨howned, hheld⟩ := h t ht hunused.1
  obtain ⟨howned', hheld'⟩ := h' _ hheld hunused.2
  refine ⟨Table.owned_append.2 ⟨howned, howned'⟩, fun fd hfd => ?_⟩
  rw [Table.run_append]
  exact hheld' fd hfd

theorem Keeps.mono {held₀ held₁ : List Nat} (h : Keeps who held es held') (hpre : ∀ fd ∈ held, fd ∈ held₀)
    (hpost : ∀ fd ∈ held₁, fd ∈ held') : Keeps who held₀ es held₁ := by
  intro t ht hunused
  obtain ⟨howned, hheld⟩ := h t (fun fd hfd => ht fd (hpre fd hfd)) hunused
  exact ⟨howned, fun fd hfd => hheld fd (hpost fd hfd)⟩

theorem apply_of_not_descriptor {e : Effect} (h : e.isDescriptor = false) (t : Table ω) : t.apply who e = t := by
  cases e with
  | openFd _ | closeFd _ => cases h
  | create _ | append _ _ | rename _ _ _ | unlink _ _ | stdout _ | send _ _ => rfl

theorem Silent.run (h : Silent es) (t : Table ω) : t.run who es = t := by
  induction es with
  | nil => rfl
  | cons e es ih =>
    have hrun : t.run who (e :: es) = (t.apply who e).run who es := rfl
    rw [hrun, apply_of_not_descriptor (h e List.mem_cons_self), ih fun e' he' => h e' (List.mem_cons_of_mem _ he')]

theorem Silent.owned (h : Silent es) (t : Table ω) : t.Owned who es := by
  induction es with
  | nil => trivial
  | cons e es ih =>
    have he : e.isDescriptor = false := h e List.mem_cons_self
    refine ⟨fun fd heq => ?_, ?_⟩
    · rw [heq] at he
      cases he
    · rw [apply_of_not_descriptor he]
      exact ih fun e' he' => h e' (List.mem_cons_of_mem _ he')

theorem Silent.keeps (h : Silent es) : Keeps who held es held := by
  intro t ht _
  refine ⟨h.owned t, fun fd hfd => ?_⟩
  rw [h.run]
  exact ht fd hfd

theorem held_ne {t : Table ω} (ht : ∀ fd ∈ held, t fd = some who) {fd n : Nat}
    (hunused : t.Unused who (.openFd fd :: es)) (hn : n ∈ held) : n ≠ fd := by
  rintro rfl
  have hnone := hunused.1 n rfl
  rw [ht n hn] at hnone
  cases hnone

theorem Keeps.openFd (fd : Nat) : Keeps who held [.openFd fd] (fd :: held) := by
  intro t ht hunused
  refine ⟨⟨nofun, trivial⟩, fun n hn => ?_⟩
  have hrun : t.run who [.openFd fd] = t.set fd (some who) := rfl
  rw [hrun]
  rcases List.mem_cons.1 hn with rfl | hmem
  · exact Table.set_self t n _
  · exact (Table.set_other t (held_ne ht hunused hmem) _).trans (ht n hmem)

theorem run_closeAll (t : Table ω) (fd : Nat) :
    t.run who (held.map .closeFd) fd = if fd ∈ held then none else t fd := by
  induction held generalizing t with
  | nil => rfl
  | cons n held ih =>
    have hrun : t.run who ((n :: held).map .closeFd) = (t.set n none).run who (held.map .closeFd) := rfl
    rw [hrun, ih]
    by_cases hfd : fd = n
    · rw [hfd, Table.set_self, ite_self, if_pos List.mem_cons_self]
    · rw [Table.set_other t hfd]
      simp only [List.mem_cons, hfd, false_or]

/-- Closing all that is held; a descriptor that is held twice is not open any more the second time. -/
theorem owned_closeAll {t : Table ω} (ht : ∀ fd ∈ held, t fd = none ∨ t fd = some who) :
    t.Owned who (held.map .closeFd) := by
  induction held generalizing t with
  | nil => trivial
  | cons fd held ih =>
    refine ⟨fun n hn => ?_, ih fun n hn => ?_⟩
    · cases hn
      exact ht fd List.mem_cons_self
    · by_cases hne : n = fd
      · rw [hne]
        exact .inl (Table.set_self t fd none)
      · rw [Table.apply, Table.set_other t hne]
        exact ht n (List.mem_cons_of_mem _ hn)

theorem Keeps.closeAll : Keeps who held (held.map .closeFd) [] := by
  intro t ht _
  exact ⟨owned_closeAll fun fd hfd => .inr (ht fd hfd), fun fd hfd => absurd hfd List.not_mem_nil⟩

theorem Keeps.openClose (fd : Nat) : Keeps who held [.openFd fd, .closeFd fd] held := by
  intro t ht hunused
  refine ⟨⟨nofun, fun n hn => ?_, trivial⟩, fun n hn => ?_⟩
  · cases hn
    exact .inr (Table.set_self t fd _)
  · have hne := held_ne ht hunused hn
    have hrun : t.run who [.openFd fd, .closeFd fd] = (t.set fd (some who)).set fd none := rfl
    rw [hrun, Table.set_other _ hne, Table.set_other _ hne]
    exact ht n hn

end Rules

end Posix
