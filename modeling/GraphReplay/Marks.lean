/-!
# Marks by id

A finite map from ids to marks, kept as a list whose ids strictly ascend.  The order is part of the
type, so a map has one representation only: `Marks.ext_get?` says that maps with the same entries
are equal, and the order in which entries were made is forgotten.

An id without an entry counts as marked by `default`: `Marks.get` reads it so, and `Marks.update`
starts from there.
-/

namespace GraphReplay

/-- The ids of `entries` strictly ascend, in the order of their code points. -/
abbrev Ascending {α : Type} (entries : List (String × α)) : Prop :=
  entries.Pairwise (·.1 < ·.1)

/-- Marks of type `α` by id. -/
structure Marks (α : Type) where
  entries : List (String × α)
  ascending : Ascending entries
deriving DecidableEq

namespace Marks

variable {α β : Type}

/-! ## 1. Entries -/

/-- The mark at `id` in a list of entries, the first one if there are several. -/
def find? (id : String) : List (String × α) → Option α
  | [] => none
  | (k, a) :: rest => if k = id then some a else find? id rest

/-- Put the mark `a` at `id`, in the place of the mark that is there. -/
def insertEntry (id : String) (a : α) : List (String × α) → List (String × α)
  | [] => [(id, a)]
  | (k, b) :: rest =>
    if id < k then (id, a) :: (k, b) :: rest
    else if id = k then (id, a) :: rest
    else (k, b) :: insertEntry id a rest

theorem mem_insertEntry {id : String} {a : α} {e : String × α} {l : List (String × α)}
    (h : e ∈ insertEntry id a l) : e = (id, a) ∨ e ∈ l := by
  induction l with
  | nil => simpa [insertEntry] using h
  | cons hd tl ih =>
    simp only [insertEntry] at h
    split at h
    · simpa using h
    · split at h
      · rcases List.mem_cons.1 h with h | h
        · exact .inl h
        · exact .inr (List.mem_cons_of_mem _ h)
      · rcases List.mem_cons.1 h with h | h
        · exact .inr (h ▸ List.mem_cons_self)
        · exact (ih h).imp_right (List.mem_cons_of_mem _)

theorem ascending_insertEntry (id : String) (a : α) {l : List (String × α)} (h : Ascending l) :
    Ascending (insertEntry id a l) := by
  induction l with
  | nil => simp [insertEntry]
  | cons hd tl ih =>
    obtain ⟨hhd, htl⟩ := List.pairwise_cons.1 h
    simp only [insertEntry]
    split
    · next hlt =>
      refine List.pairwise_cons.2 ⟨fun e he => ?_, h⟩
      rcases List.mem_cons.1 he with rfl | he
      · exact hlt
      · exact String.lt_trans hlt (hhd e he)
    · next hnlt =>
      split
      · next heq => exact List.pairwise_cons.2 ⟨fun e he => heq ▸ hhd e he, htl⟩
      · next hne =>
        refine List.pairwise_cons.2 ⟨fun e he => ?_, ih htl⟩
        rcases mem_insertEntry he with rfl | he
        · refine String.not_le.1 fun hle => hne (String.le_antisymm hle ?_)
          exact String.not_lt.1 hnlt
        · exact hhd e he

theorem find?_insertEntry_self (id : String) (a : α) (l : List (String × α)) :
    find? id (insertEntry id a l) = some a := by
  induction l with
  | nil => simp [insertEntry, find?]
  | cons hd tl ih =>
    simp only [insertEntry]
    split
    · simp [find?]
    · split
      · simp [find?]
      · next hne => simp [find?, Ne.symm hne, ih]

theorem find?_insertEntry_of_ne {id other : String} (h : other ≠ id) (a : α)
    (l : List (String × α)) : find? other (insertEntry id a l) = find? other l := by
  induction l with
  | nil => simp [insertEntry, find?, Ne.symm h]
  | cons hd tl ih =>
    simp only [insertEntry]
    split
    · simp [find?, Ne.symm h]
    · split
      · next heq => simp [find?, ← heq, Ne.symm h]
      · simp [find?, ih]

theorem find?_eq_none_of_forall_ne {id : String} {l : List (String × α)}
    (h : ∀ e ∈ l, e.1 ≠ id) : find? id l = none := by
  induction l with
  | nil => rfl
  | cons hd tl ih =>
    simp [find?, h hd List.mem_cons_self, ih fun e he => h e (List.mem_cons_of_mem _ he)]

theorem find?_eq_none_of_lt {id : String} {l : List (String × α)} (h : ∀ e ∈ l, id < e.1) :
    find? id l = none :=
  find?_eq_none_of_forall_ne fun e he heq => String.lt_irrefl id (heq ▸ h e he)

/-- Ascending lists that give the same mark at every id are equal. -/
theorem eq_of_find?_eq {l m : List (String × α)} (hl : Ascending l) (hm : Ascending m)
    (h : ∀ id, find? id l = find? id m) : l = m := by
  induction l generalizing m with
  | nil =>
    cases m with
    | nil => rfl
    | cons e m => simpa [find?] using h e.1
  | cons d l ih =>
    obtain ⟨hd, hl'⟩ := List.pairwise_cons.1 hl
    cases m with
    | nil => simpa [find?] using h d.1
    | cons e m =>
      obtain ⟨he, hm'⟩ := List.pairwise_cons.1 hm
      -- The least ids agree: the smaller of two different ones has no entry in the other list.
      have hnd : ∀ x ∈ l, x.1 ≠ d.1 := fun x hx hxd => String.lt_irrefl d.1 (hxd ▸ hd x hx)
      have hne : ∀ x ∈ m, x.1 ≠ e.1 := fun x hx hxe => String.lt_irrefl e.1 (hxe ▸ he x hx)
      have hkey : d.1 = e.1 := by
        refine Classical.byContradiction fun hk => ?_
        have h₁ := h d.1
        have h₂ := h e.1
        rcases String.le_total d.1 e.1 with hle | hle
        · have hlt : d.1 < e.1 :=
            String.not_le.1 fun hge => hk (String.le_antisymm hle hge)
          have hnone : find? d.1 m = none :=
            find?_eq_none_of_lt fun x hx => String.lt_trans hlt (he x hx)
          simp [find?, Ne.symm hk, hnone] at h₁
        · have hlt : e.1 < d.1 :=
            String.not_le.1 fun hge => hk (String.le_antisymm hge hle)
          have hnone : find? e.1 l = none :=
            find?_eq_none_of_lt fun x hx => String.lt_trans hlt (hd x hx)
          simp [find?, hk, hnone] at h₂
      have hval : d.2 = e.2 := by
        have := h d.1
        simpa [find?, hkey] using this
      have hde : d = e := Prod.ext hkey hval
      subst hde
      refine congrArg (d :: ·) (ih hl' hm' fun id => ?_)
      by_cases hid : d.1 = id
      · subst hid
        rw [find?_eq_none_of_forall_ne hnd, find?_eq_none_of_forall_ne hne]
      · simpa [find?, hid] using h id

theorem find?_map (f : α → β) (id : String) (l : List (String × α)) :
    find? id (l.map fun e => (e.1, f e.2)) = (find? id l).map f := by
  induction l with
  | nil => rfl
  | cons hd tl ih => by_cases h : hd.1 = id <;> simp [find?, h, ih]

/-! ## 2. Maps -/

def empty : Marks α :=
  ⟨[], List.Pairwise.nil⟩

instance : EmptyCollection (Marks α) := ⟨empty⟩

instance : Inhabited (Marks α) := ⟨empty⟩

/-- Maps are alike when their entries are, compared as the marks compare. -/
instance [BEq α] : BEq (Marks α) := ⟨fun m n => m.entries == n.entries⟩

def get? (m : Marks α) (id : String) : Option α :=
  find? id m.entries

/-- The mark at `id`. -/
def get [Inhabited α] (m : Marks α) (id : String) : α :=
  (m.get? id).getD default

def put (m : Marks α) (id : String) (a : α) : Marks α :=
  ⟨insertEntry id a m.entries, ascending_insertEntry id a m.ascending⟩

/-- The map with `f` applied to the mark at `id`. -/
def update [Inhabited α] (m : Marks α) (id : String) (f : α → α) : Marks α :=
  m.put id (f (m.get id))

/-- The map with `f` applied to the mark of every entry. -/
def map (f : α → β) (m : Marks α) : Marks β :=
  ⟨m.entries.map fun e => (e.1, f e.2), List.Pairwise.map _ (fun _ _ h => h) m.ascending⟩

/-- The map with these entries, the last one of those with the same id. -/
def ofList (l : List (String × α)) : Marks α :=
  l.foldl (fun m e => m.put e.1 e.2) ∅

@[simp] theorem get?_empty (id : String) : (∅ : Marks α).get? id = none := rfl

@[simp] theorem get?_put_self (m : Marks α) (id : String) (a : α) :
    (m.put id a).get? id = some a :=
  find?_insertEntry_self id a m.entries

theorem get?_put_of_ne (m : Marks α) {id other : String} (h : other ≠ id) (a : α) :
    (m.put id a).get? other = m.get? other :=
  find?_insertEntry_of_ne h a m.entries

@[simp] theorem get?_map (f : α → β) (m : Marks α) (id : String) :
    (m.map f).get? id = (m.get? id).map f :=
  find?_map f id m.entries

theorem ext_get? {m n : Marks α} (h : ∀ id, m.get? id = n.get? id) : m = n := by
  cases m with
  | mk l hl =>
    cases n with
    | mk k hk =>
      have := eq_of_find?_eq hl hk h
      subst this
      rfl

variable [Inhabited α]

@[simp] theorem get_empty (id : String) : (∅ : Marks α).get id = default := rfl

@[simp] theorem get_update_self (m : Marks α) (id : String) (f : α → α) :
    (m.update id f).get id = f (m.get id) := by
  simp [update, get]

theorem get_update_of_ne (m : Marks α) {id other : String} (h : other ≠ id) (f : α → α) :
    (m.update id f).get other = m.get other := by
  simp [update, get, get?_put_of_ne m h]

theorem get_update (m : Marks α) (id other : String) (f : α → α) :
    (m.update id f).get other = if other = id then f (m.get other) else m.get other := by
  split
  · next h => rw [h, get_update_self]
  · next h => exact get_update_of_ne m h f

/-- Ids without an entry stay at the default mark if `f` keeps it. -/
theorem get_map {f : α → α} (h : f default = default) (m : Marks α) (id : String) :
    (m.map f).get id = f (m.get id) := by
  rw [get, get?_map, get]
  cases m.get? id with
  | none => exact h.symm
  | some a => rfl

end Marks

end GraphReplay
