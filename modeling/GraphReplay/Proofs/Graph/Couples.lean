import Mathlib.Data.List.Nodup
import GraphReplay.Proofs.Graph.Ids
import GraphReplay.Proofs.Graph.Reading

/-!
# Couples

In an undirected graph the records come in couples: one for each direction of a connection, next to
each other, with an even number and the odd one after it.  Reading a graph and every edit keep this,
also when lines are repeated or reversed and when numbers are used again, because the two least
unused numbers are always a couple.  Whatever finds a record then finds its couple, from either end
(`edge?_eq`, `recordIds_eq`).
-/

namespace GraphReplay

/-- An undirected connection, made from `source` to `target`. -/
structure Couple where
  number : Nat
  source : String
  target : String

namespace Couple

/-- The record from the source to the target. -/
def there (c : Couple) : Edge :=
  ⟨edgeId (2 * c.number), c.source, c.target, 0.0, some (pairId c.source c.target)⟩

/-- The record from the target to the source. -/
def back (c : Couple) : Edge :=
  ⟨edgeId (2 * c.number + 1), c.target, c.source, 0.0, some (pairId c.source c.target)⟩

def records (c : Couple) : List Edge :=
  [c.there, c.back]

def joins (c : Couple) (s t : String) : Bool :=
  (c.source == s && c.target == t) || (c.source == t && c.target == s)

/-- The record that leads from `s`. -/
def leaving (c : Couple) (s : String) : Edge :=
  if c.source = s then c.there else c.back

/-- The record that leads to `s`; of a loop the second one. -/
def entering (c : Couple) (s : String) : Edge :=
  if c.source = s then c.back else c.there

theorem joins_comm (c : Couple) (s t : String) : c.joins s t = c.joins t s :=
  Bool.or_comm _ _

theorem joins_iff {c : Couple} {s t : String} :
    c.joins s t = true ↔ (c.source = s ∧ c.target = t) ∨ (c.source = t ∧ c.target = s) := by
  simp only [joins, Bool.or_eq_true, Bool.and_eq_true, beq_iff_eq]

theorem joins_of_find? {couples : List Couple} {c : Couple} {s t : String}
    (hfind : couples.find? (·.joins s t) = some c) : c.joins s t = true :=
  List.find?_some (p := fun d => Couple.joins d s t) hfind

theorem entering_eq_leaving {c : Couple} {s t : String} (hne : s ≠ t) (h : c.joins s t = true) :
    c.entering s = c.leaving t := by
  unfold entering leaving
  rcases joins_iff.mp h with ⟨hs, _⟩ | ⟨ht, _⟩
  · rw [if_pos hs, if_neg (fun ht => hne (hs.symm.trans ht))]
  · rw [if_pos ht, if_neg (fun hs => hne (hs.symm.trans ht))]

theorem find?_records (c : Couple) (s t : String) :
    c.records.find? (fun e => e.source == s && e.target == t) =
      if c.joins s t then some (c.leaving s) else none := by
  by_cases hthere : c.source = s ∧ c.target = t
  · obtain ⟨rfl, rfl⟩ := hthere
    simp [records, there, joins, leaving]
  · by_cases hback : c.source = t ∧ c.target = s
    · obtain ⟨rfl, rfl⟩ := hback
      -- A loop was found the other way, so the first record does not match.
      have hne : c.source ≠ c.target := fun h => hthere ⟨h, h.symm⟩
      simp [records, there, back, joins, leaving, hne]
    · have hjoins : c.joins s t = false := by
        rw [Bool.eq_false_iff, ne_eq, joins_iff, not_or]
        exact ⟨hthere, hback⟩
      rw [hjoins, if_neg Bool.false_ne_true, List.find?_eq_none]
      intro e he
      rcases List.mem_cons.mp he with rfl | he
      · simpa [there] using hthere
      · rw [List.mem_singleton.mp he]
        simpa [back, and_comm] using hback

theorem pair_leaving (c : Couple) (s : String) :
    (c.leaving s).pair = some (pairId c.source c.target) := by
  unfold leaving
  split <;> rfl

/-- The first other record with the pair id of a record of `c`: in `c` it is the other half, and a
couple that joins the same nodes starts with one. -/
theorem find?_records_twin {c other : Couple} {s t : String} (hjoins : c.joins s t = true)
    (hsource : '-' ∉ other.source.toList) (htarget : '-' ∉ other.target.toList)
    (hnumber : other.number = c.number → other = c) :
    other.records.find? (fun e => e.id != (c.leaving s).id && e.pair == (c.leaving s).pair) =
      if other.joins s t then
        some (if other.number = c.number then c.entering s else other.there)
      else none := by
  have hpair : pairId other.source other.target = pairId c.source c.target ↔
      other.joins s t = true := by
    rw [pairId_eq_iff hsource htarget, joins_iff]
    rcases joins_iff.mp hjoins with ⟨hs, ht⟩ | ⟨ht, hs⟩
    · rw [hs, ht]
    · rw [hs, ht]
      exact Or.comm
  rw [pair_leaving]
  -- Among the couples that join `s` and `t`, only `c` has the record that is left out.
  by_cases hother : other.joins s t = true
  · have hsame := hpair.mpr hother
    rw [if_pos hother]
    by_cases heq : other.number = c.number
    · rw [if_pos heq, hnumber heq]
      unfold leaving entering
      split <;> simp [records, there, back, edgeId_inj]
    · rw [if_neg heq]
      have hid : edgeId (2 * other.number) ≠ (c.leaving s).id := by
        unfold leaving
        split
        · exact fun h => heq (edgeId_even_inj.mp h)
        · exact edgeId_even_ne_odd other.number c.number
      simp [records, there, hid, hsame]
  · have hdifferent : pairId other.source other.target ≠ pairId c.source c.target :=
      fun h => hother (hpair.mp h)
    rw [if_neg hother]
    simp [records, there, back, hdifferent]

theorem filter_records_ids (c other : Couple) (s : String) :
    other.records.filter (fun e => !([(c.leaving s).id, (c.entering s).id].contains e.id)) =
      if other.number != c.number then other.records else [] := by
  unfold leaving entering
  by_cases hnumber : other.number = c.number <;> split <;>
    simp [records, there, back, edgeId_even_inj, edgeId_odd_inj, edgeId_even_ne_odd,
      (edgeId_even_ne_odd _ _).symm, hnumber]

end Couple

/-! ## 1. Lists of groups -/

section

variable {α β : Type} {l : List α} {f : α → List β}

/-- A search in groups, when a group is searched for the whole group. -/
theorem find?_flatMap_eq_map_find? {p : β → Bool} {q : α → Bool} {r : α → β}
    (h : ∀ a ∈ l, (f a).find? p = if q a then some (r a) else none) :
    (l.flatMap f).find? p = (l.find? q).map r := by
  induction l with
  | nil => rfl
  | cons a l ih =>
    rw [List.flatMap_cons, List.find?_append, h a List.mem_cons_self,
      ih fun b hb => h b (List.mem_cons_of_mem a hb), List.find?_cons]
    cases q a with
    | true => rfl
    | false => rfl

theorem filter_flatMap_eq_flatMap_filter {p : β → Bool} {q : α → Bool}
    (h : ∀ a ∈ l, (f a).filter p = if q a then f a else []) :
    (l.flatMap f).filter p = (l.filter q).flatMap f := by
  induction l with
  | nil => rfl
  | cons a l ih =>
    rw [List.flatMap_cons, List.filter_append, h a List.mem_cons_self,
      ih fun b hb => h b (List.mem_cons_of_mem a hb), List.filter_cons]
    cases q a with
    | true => rfl
    | false => rfl

end

namespace Graph

/-- The records of an undirected graph are those of some couples, in order; the couples have
different numbers and join nodes of the graph, whose ids are numerals. -/
structure Coupled (g : Graph) (couples : List Couple) : Prop where
  undirected : g.directed = false
  numerals : ∀ id ∈ g.nodes, ∃ n, id = Text.numeral n
  edges : g.edges = couples.flatMap Couple.records
  ends : ∀ c ∈ couples, c.source ∈ g.nodes ∧ c.target ∈ g.nodes
  distinct : (couples.map Couple.number).Nodup

namespace Coupled

variable {g : Graph} {couples : List Couple}

/-! ## 2. Lookups -/

theorem dash_not_mem (h : Coupled g couples) {id : String} (hid : id ∈ g.nodes) :
    '-' ∉ id.toList := by
  obtain ⟨n, rfl⟩ := h.numerals id hid
  exact Text.not_mem_numeral_of_not_digit (by decide) n

theorem eq_of_number_eq (h : Coupled g couples) {c d : Couple} (hc : c ∈ couples)
    (hd : d ∈ couples) (hnumber : c.number = d.number) : c = d :=
  List.inj_on_of_nodup_map h.distinct hc hd hnumber

theorem edge?_eq (h : Coupled g couples) (s t : String) :
    g.edge? s t = (couples.find? (·.joins s t)).map (·.leaving s) := by
  unfold edge?
  rw [h.edges]
  exact find?_flatMap_eq_map_find? fun c _ => c.find?_records s t

theorem twin?_leaving (h : Coupled g couples) {s t : String} {c : Couple}
    (hfind : couples.find? (·.joins s t) = some c) : g.twin? (c.leaving s) = some (c.entering s) := by
  have hjoins : c.joins s t = true := Couple.joins_of_find? hfind
  have hmem : c ∈ couples := List.mem_of_find?_eq_some hfind
  have hcondition : ¬ (g.directed || (c.leaving s).pair.isNone) = true := by
    rw [h.undirected, c.pair_leaving]
    exact Bool.false_ne_true
  unfold twin?
  rw [if_neg hcondition, h.edges, find?_flatMap_eq_map_find? (q := (·.joins s t))
    (r := fun d => if d.number = c.number then c.entering s else d.there), hfind]
  · exact congrArg some (if_pos rfl)
  · intro d hd
    have hends := h.ends d hd
    exact Couple.find?_records_twin hjoins (h.dash_not_mem hends.1) (h.dash_not_mem hends.2)
      (h.eq_of_number_eq hd hmem)

theorem recordIds_eq (h : Coupled g couples) (s t : String) :
    g.recordIds s t =
      match couples.find? (·.joins s t) with
      | none => []
      | some c => [(c.leaving s).id, (c.entering s).id] := by
  unfold recordIds
  rw [h.edge?_eq]
  cases hfind : couples.find? (·.joins s t) with
  | none => rfl
  | some c =>
    simp only [Option.map_some, h.twin?_leaving hfind]
    rfl

theorem edge?_isSome_comm (h : Coupled g couples) (s t : String) :
    (g.edge? s t).isSome ↔ (g.edge? t s).isSome := by
  rw [h.edge?_eq, h.edge?_eq, Option.isSome_map, Option.isSome_map]
  simp only [Couple.joins_comm _ s t]

/-! ## 3. Numbers -/

theorem edgeNumbers_eq (h : Coupled g couples) :
    g.edgeNumbers = couples.flatMap fun c => [2 * c.number, 2 * c.number + 1] := by
  unfold edgeNumbers
  rw [h.edges, List.filterMap_flatMap]
  congr 1
  funext c
  simp only [Couple.records, Couple.there, Couple.back, List.filterMap_cons, edgeNumber?_edgeId,
    List.filterMap_nil]

theorem mem_edgeNumbers_iff (h : Coupled g couples) (n : Nat) :
    n ∈ g.edgeNumbers ↔ n / 2 ∈ couples.map Couple.number := by
  rw [h.edgeNumbers_eq, List.mem_flatMap, List.mem_map]
  constructor
  · rintro ⟨c, hc, hn⟩
    rw [List.mem_pair] at hn
    exact ⟨c, hc, by omega⟩
  · rintro ⟨c, hc, hn⟩
    exact ⟨c, hc, by rw [List.mem_pair]; omega⟩

/-- The two least unused numbers are a couple. -/
theorem freshNumbers_two (h : Coupled g couples) :
    ∃ k, k ∉ couples.map Couple.number ∧ freshNumbers 2 g.edgeNumbers = [2 * k, 2 * k + 1] := by
  refine ⟨leastUnused (couples.map Couple.number), not_mem_leastUnused _, ?_⟩
  generalize hk : leastUnused (couples.map Couple.number) = k
  have hunused : k ∉ couples.map Couple.number := hk ▸ not_mem_leastUnused _
  have hbelow : ∀ m < k, m ∈ couples.map Couple.number := fun m hm =>
    mem_of_lt_leastUnused (hk ▸ hm)
  -- Both numbers of a couple are in use or neither is, so the least unused one is even.
  have heven : leastUnused g.edgeNumbers = 2 * k := by
    apply leastUnused_eq_of
    · rw [h.mem_edgeNumbers_iff, show 2 * k / 2 = k by omega]
      exact hunused
    · intro m hm
      rw [h.mem_edgeNumbers_iff]
      exact hbelow _ (by omega)
  have hodd : leastUnused (2 * k :: g.edgeNumbers) = 2 * k + 1 := by
    apply leastUnused_eq_of
    · rw [List.mem_cons, h.mem_edgeNumbers_iff, show (2 * k + 1) / 2 = k by omega, not_or]
      exact ⟨by omega, hunused⟩
    · intro m hm
      rw [List.mem_cons, h.mem_edgeNumbers_iff]
      by_cases heq : m = 2 * k
      · exact Or.inl heq
      · exact Or.inr (hbelow _ (by omega))
  rw [freshNumbers, freshNumbers, freshNumbers, heven, hodd]

/-! ## 4. Edits -/

theorem empty : Coupled (Graph.empty false) [] where
  undirected := rfl
  numerals := nofun
  edges := rfl
  ends := nofun
  distinct := List.nodup_nil

theorem join (h : Coupled g couples) {s t : String} (hs : s ∈ g.nodes) (ht : t ∈ g.nodes) :
    ∃ k, g.newRecords s t = (Couple.mk k s t).records ∧
      Coupled (g.join s t) (couples ++ [⟨k, s, t⟩]) := by
  obtain ⟨k, hunused, hfresh⟩ := h.freshNumbers_two
  have hrecords : g.newRecords s t = (Couple.mk k s t).records := by
    have hends : g.recordEnds s t = ([(s, t), (t, s)], some (pairId s t)) := by
      rw [recordEnds, h.undirected, if_neg Bool.false_ne_true]
    unfold newRecords
    rw [hends]
    simp only [List.length_cons, List.length_nil, hfresh]
    rfl
  refine ⟨k, hrecords, h.undirected, h.numerals, ?_, ?_, ?_⟩
  · rw [Graph.join, h.edges, hrecords, List.flatMap_append, List.flatMap_singleton]
  · intro c hc
    rcases List.mem_append.mp hc with hc | hc
    · exact h.ends c hc
    · rw [List.mem_singleton.mp hc]
      exact ⟨hs, ht⟩
  · rw [List.map_append, List.nodup_append]
    refine ⟨h.distinct, List.nodup_singleton _, fun m hm n hn hmn => hunused ?_⟩
    have hk : n = k := List.mem_singleton.mp hn
    exact hmn.trans hk ▸ hm

theorem withNodes (h : Coupled g couples) {nodes : List String} (hsubset : g.nodes ⊆ nodes)
    (hnumerals : ∀ id ∈ nodes, ∃ n, id = Text.numeral n) : Coupled { g with nodes } couples where
  undirected := h.undirected
  numerals := hnumerals
  edges := h.edges
  ends := fun c hc => ⟨hsubset (h.ends c hc).1, hsubset (h.ends c hc).2⟩
  distinct := h.distinct

theorem addNode (h : Coupled g couples) : Coupled g.addNode.1 couples := by
  apply h.withNodes (List.subset_append_left _ _)
  intro id hid
  rcases List.mem_append.mp hid with hid | hid
  · exact h.numerals id hid
  · exact ⟨_, List.mem_singleton.mp hid⟩

/-- The couples that a graph is left with when the records of some couples go. -/
theorem filter (h : Coupled g couples) {nodes : List String} {p : Edge → Bool} {q : Couple → Bool}
    (hnodes : nodes ⊆ g.nodes)
    (hrecords : ∀ c ∈ couples, c.records.filter p = if q c then c.records else [])
    (hends : ∀ c ∈ couples, q c = true → c.source ∈ nodes ∧ c.target ∈ nodes) :
    Coupled { g with nodes, edges := g.edges.filter p } (couples.filter q) where
  undirected := h.undirected
  numerals := fun id hid => h.numerals id (hnodes hid)
  edges := by
    show g.edges.filter p = _
    rw [h.edges]
    exact filter_flatMap_eq_flatMap_filter hrecords
  ends := fun c hc => hends c (List.mem_filter.mp hc).1 (List.mem_filter.mp hc).2
  distinct := h.distinct.sublist (List.filter_sublist.map Couple.number)

theorem removeNode (h : Coupled g couples) (id : String) :
    ∃ left, Coupled (g.removeNode id).1 left := by
  unfold Graph.removeNode
  split
  · refine ⟨_, h.filter (q := fun c => c.source != id && c.target != id)
      (fun _ hn => (List.mem_filter.mp hn).1) ?_ ?_⟩
    · intro c _
      by_cases hs : c.source = id <;> by_cases ht : c.target = id <;>
        simp [Couple.records, Couple.there, Couple.back, hs, ht]
    · intro c hc hkept
      rw [Bool.and_eq_true] at hkept
      exact ⟨List.mem_filter.mpr ⟨(h.ends c hc).1, hkept.1⟩,
        List.mem_filter.mpr ⟨(h.ends c hc).2, hkept.2⟩⟩
  · exact ⟨couples, h⟩

theorem connect (h : Coupled g couples) (s t : String) :
    ∃ more, Coupled (g.connect s t).1 more := by
  rcases g.connect_cases s t with hconnect | ⟨_, hs, ht, _, hconnect⟩
  · rw [hconnect]
    exact ⟨couples, h⟩
  · rw [hconnect]
    obtain ⟨k, _, hjoin⟩ := h.join hs ht
    exact ⟨_, hjoin⟩

/-- A connection that is not there leaves the records as they are. -/
theorem disconnect_of_find?_eq_none (h : Coupled g couples) {s t : String}
    (hfind : couples.find? (·.joins s t) = none) : g.disconnect s t = (g, []) := by
  apply disconnect_of_recordIds_eq_nil
  rw [h.recordIds_eq, hfind]

/-- Of the couples that join two nodes, the first one goes. -/
theorem disconnect_of_find?_eq_some (h : Coupled g couples) {s t : String} {c : Couple}
    (hfind : couples.find? (·.joins s t) = some c) :
    Coupled (g.disconnect s t).1 (couples.filter fun d => d.number != c.number) := by
  unfold Graph.disconnect
  rw [h.recordIds_eq, hfind]
  exact h.filter (fun _ hn => hn) (fun d _ => c.filter_records_ids d s) fun d hd _ => h.ends d hd

theorem disconnect (h : Coupled g couples) (s t : String) :
    ∃ left, Coupled (g.disconnect s t).1 left := by
  cases hfind : couples.find? (·.joins s t) with
  | none => exact ⟨couples, by rw [h.disconnect_of_find?_eq_none hfind]; exact h⟩
  | some c => exact ⟨_, h.disconnect_of_find?_eq_some hfind⟩

/-! ## 5. Graphs that are read -/

theorem foldl_join (h : Coupled g couples) {ends : List (Nat × Nat)}
    (hends : ∀ e ∈ ends, Text.numeral e.1 ∈ g.nodes ∧ Text.numeral e.2 ∈ g.nodes) :
    ∃ more, Coupled
      (ends.foldl (fun g e => g.join (Text.numeral e.1) (Text.numeral e.2)) g) more := by
  induction ends generalizing g couples with
  | nil => exact ⟨couples, h⟩
  | cons e ends ih =>
    obtain ⟨hs, ht⟩ := hends e List.mem_cons_self
    obtain ⟨k, _, hjoin⟩ := h.join hs ht
    exact ih hjoin fun d hd => hends d (List.mem_cons_of_mem e hd)

theorem read {text : String} (hread : Graph.read text false = .ok g) :
    ∃ couples, Coupled g couples := by
  obtain ⟨nodeCount, edgeCount, lines, ends, hends, rfl⟩ := exists_ends_of_read_eq_ok hread
  have hnumeral : ∀ n < nodeCount, Text.numeral n ∈ (List.range nodeCount).map Text.numeral :=
    fun n hn => List.mem_map.mpr ⟨n, List.mem_range.mpr hn, rfl⟩
  refine foldl_join (empty.withNodes (List.nil_subset _) fun id hid => ?_) fun e he => ?_
  · obtain ⟨n, _, hn⟩ := List.mem_map.mp hid
    exact ⟨n, hn.symm⟩
  · have hlt := lt_of_mem_readEnds hends e he
    exact ⟨hnumeral e.1 hlt.1, hnumeral e.2 hlt.2⟩

end Coupled

end Graph

end GraphReplay
