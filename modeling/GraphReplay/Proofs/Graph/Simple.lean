import Mathlib.Data.List.Nodup
import GraphReplay.Proofs.Graph.Defects
import GraphReplay.Proofs.Graph.Edits

/-!
# Loops and parallel connections

Connecting two nodes makes no loop, and no connection that is there already; reading a text makes
one connection for each line.  So a text can be accepted whose graph has loops, or two records from
one node to another, and then ending a connection once does not end it.  `simple_iff_of_read` says
for which texts this is so: for those in which a line joins a node to itself or two lines make the
same connection.
-/

namespace GraphReplay

def Edge.ends (e : Edge) : String × String :=
  (e.source, e.target)

/-- The record leads from `s` to `t` or back. -/
def Edge.joins (e : Edge) (s t : String) : Bool :=
  (e.source == s && e.target == t) || (e.source == t && e.target == s)

namespace Graph

variable {g : Graph} {couples : List Couple} {directed : Bool} {nodeCount : Nat}
  {ends : List (Nat × Nat)} {s t text : String}

/-! ## 1. Accepted texts -/

/-- The header announces these numbers of nodes and of connections, and the lines after it give the
ends of the connections in order. -/
structure GivesEnds (lines : List String) (nodeCount : Nat) (ends : List (Nat × Nat)) : Prop where
  header : ∃ header, lines[0]? = some header ∧ StartsWithNumbers header nodeCount ends.length
  ends : ∀ i e, ends[i]? = some e → EndsAt lines nodeCount (i + 1) e.1 e.2

theorem GivesEnds.lt {lines : List String} (h : GivesEnds lines nodeCount ends) :
    ∀ e ∈ ends, e.1 < nodeCount ∧ e.2 < nodeCount := by
  intro e he
  obtain ⟨i, hi⟩ := List.mem_iff_getElem?.mp he
  exact (h.ends i e hi).2

theorem GivesEnds.unique {lines : List String} {nodeCount' : Nat} {ends' : List (Nat × Nat)}
    (h : GivesEnds lines nodeCount ends) (h' : GivesEnds lines nodeCount' ends') :
    nodeCount = nodeCount' ∧ ends = ends' := by
  obtain ⟨header, hheader, hnumbers⟩ := h.header
  obtain ⟨header', hheader', hnumbers'⟩ := h'.header
  rw [hheader] at hheader'
  cases hheader'
  obtain ⟨rfl, hlength⟩ := hnumbers.unique hnumbers'
  refine ⟨rfl, List.ext_getElem hlength fun i hi hi' => ?_⟩
  obtain ⟨hsource, htarget⟩ :=
    (h.ends i _ (List.getElem?_eq_getElem hi)).unique (h'.ends i _ (List.getElem?_eq_getElem hi'))
  exact Prod.ext hsource htarget

theorem GivesEnds.read_eq (h : GivesEnds (formatLines text) nodeCount ends) (directed : Bool) :
    read text directed = .ok (ofEnds directed nodeCount ends) := by
  obtain ⟨header, hheader, hnumbers⟩ := h.header
  have hall : ∀ i, 1 ≤ i → i ≤ ends.length →
      ∃ source target, EndsAt (formatLines text) nodeCount i source target := by
    intro i hfirst hlast
    have hat := h.ends (i - 1) _ (List.getElem?_eq_getElem (by omega))
    rw [Nat.sub_add_cancel hfirst] at hat
    exact ⟨_, _, hat⟩
  obtain ⟨others, hread, hlength, hget⟩ := exists_read_eq_ok hheader hnumbers hall directed
  have hsame : others = ends := by
    apply List.ext_getElem hlength
    intro i hi hi'
    have hat := hget i _ _ hi' (h.ends i _ (List.getElem?_eq_getElem hi'))
    rw [List.getElem?_eq_getElem hi, Option.some_inj] at hat
    exact hat
  rw [hread, hsame]

theorem exists_givesEnds_of_read (hread : read text directed = .ok g) :
    ∃ nodeCount ends, GivesEnds (formatLines text) nodeCount ends ∧
      g = ofEnds directed nodeCount ends := by
  rcases read_cases text directed with ⟨_, herror⟩ | ⟨_, header, hheader, ⟨_, herror⟩ | hcounts⟩
  · exact nomatch herror.symm.trans hread
  · exact nomatch herror.symm.trans hread
  · obtain ⟨nodeCount, edgeCount, hnumbers, _⟩ := hcounts
    rcases firstDefect_or_endsAt (formatLines text) nodeCount edgeCount 1 with ⟨e, hdefect⟩ | hall
    · have herror : read text directed = .error e :=
        (read_eq_error_iff_firstDefect hheader hnumbers).mpr hdefect
      exact nomatch herror.symm.trans hread
    · obtain ⟨ends, hok, rfl, hget⟩ := exists_read_eq_ok hheader hnumbers hall directed
      refine ⟨nodeCount, ends, ⟨⟨header, hheader, hnumbers⟩, fun i e he => ?_⟩, ?_⟩
      · have hi : i < ends.length := (List.getElem?_eq_some_iff.mp he).1
        obtain ⟨source, target, hat⟩ := hall (i + 1) (by omega) (by omega)
        have hends := hget i source target hi hat
        rw [he, Option.some_inj] at hends
        rw [hends]
        exact hat
      · have heq := hread.symm.trans hok
        injection heq

/-! ## 2. Simple graphs -/

def between (g : Graph) (s t : String) : List Edge :=
  g.edges.filter (·.joins s t)

def Loopless (g : Graph) : Prop :=
  ∀ e ∈ g.edges, e.source ≠ e.target

/-- No record joins a node to itself, no two have the same ends, and in an undirected graph two
nodes are joined by no record or by one each way, with one pair id. -/
structure Simple (g : Graph) : Prop where
  loopless : g.Loopless
  single : (g.edges.map Edge.ends).Nodup
  bothWays : g.directed = false → ∀ s t, s ≠ t → g.between s t = [] ∨
    ∃ there back, (g.between s t).Perm [there, back] ∧ there.ends = (s, t) ∧ back.ends = (t, s) ∧
      there.pair = back.pair ∧ there.pair.isSome

/-- Whether a line with these numbers connects `s` and `t`, in this order if connections lead one
way. -/
def connects (directed : Bool) (s t : String) (e : Nat × Nat) : Bool :=
  (Text.numeral e.1 == s && Text.numeral e.2 == t) ||
    (!directed && (Text.numeral e.1 == t && Text.numeral e.2 == s))

theorem mem_edges_ofEnds_iff {record : Edge} :
    record ∈ (ofEnds directed nodeCount ends).edges ↔
      ∃ i e, ends[i]? = some e ∧ record ∈ recordsAt directed i e := by
  rw [edges_ofEnds, List.mem_flatMap]
  constructor
  · rintro ⟨⟨e, i⟩, hmem, hrecord⟩
    exact ⟨i, e, List.mk_mem_zipIdx_iff_getElem?.mp hmem, hrecord⟩
  · rintro ⟨i, e, hget, hrecord⟩
    exact ⟨(e, i), List.mk_mem_zipIdx_iff_getElem?.mpr hget, hrecord⟩

theorem ends_of_mem_recordsAt {record : Edge} {i : Nat} {e : Nat × Nat}
    (h : record ∈ recordsAt directed i e) :
    (record.source = Text.numeral e.1 ∧ record.target = Text.numeral e.2) ∨
      (record.source = Text.numeral e.2 ∧ record.target = Text.numeral e.1) := by
  unfold recordsAt at h
  cases directed with
  | true =>
    rw [if_pos rfl, List.mem_singleton] at h
    exact Or.inl (h ▸ ⟨rfl, rfl⟩)
  | false =>
    rw [if_neg Bool.false_ne_true, List.mem_pair] at h
    rcases h with rfl | rfl
    · exact Or.inl ⟨rfl, rfl⟩
    · exact Or.inr ⟨rfl, rfl⟩

theorem loopless_ofEnds_iff :
    (ofEnds directed nodeCount ends).Loopless ↔ ∀ e ∈ ends, e.1 ≠ e.2 := by
  constructor
  · intro h e he heq
    obtain ⟨i, hi⟩ := List.mem_iff_getElem?.mp he
    have hrecord : ∃ record ∈ recordsAt directed i e,
        record.ends = (Text.numeral e.1, Text.numeral e.2) := by
      cases directed <;> exact ⟨_, List.mem_cons_self, rfl⟩
    obtain ⟨record, hmem, hends⟩ := hrecord
    apply h record (mem_edges_ofEnds_iff.mpr ⟨i, e, hi, hmem⟩)
    have hsource : record.source = Text.numeral e.1 := congrArg Prod.fst hends
    have htarget : record.target = Text.numeral e.2 := congrArg Prod.snd hends
    rw [hsource, htarget, heq]
  · intro h record hrecord heq
    obtain ⟨i, e, hget, hrecord⟩ := mem_edges_ofEnds_iff.mp hrecord
    apply h e (List.mem_of_getElem? hget)
    apply Text.numeral_inj.mp
    rcases ends_of_mem_recordsAt hrecord with ⟨hsource, htarget⟩ | ⟨hsource, htarget⟩
    · rw [← hsource, ← htarget, heq]
    · rw [← hsource, ← htarget, heq]

theorem mem_nodes_ofEnds (hlt : ∀ e ∈ ends, e.1 < nodeCount ∧ e.2 < nodeCount) {record : Edge}
    (hrecord : record ∈ (ofEnds directed nodeCount ends).edges) :
    record.source ∈ (ofEnds directed nodeCount ends).nodes ∧
      record.target ∈ (ofEnds directed nodeCount ends).nodes := by
  have hnumeral : ∀ n < nodeCount, Text.numeral n ∈ (ofEnds directed nodeCount ends).nodes := by
    intro n hn
    rw [nodes_ofEnds]
    exact List.mem_map.mpr ⟨n, List.mem_range.mpr hn, rfl⟩
  obtain ⟨i, e, hget, hrecord⟩ := mem_edges_ofEnds_iff.mp hrecord
  obtain ⟨hfirst, hsecond⟩ := hlt e (List.mem_of_getElem? hget)
  rcases ends_of_mem_recordsAt hrecord with ⟨hsource, htarget⟩ | ⟨hsource, htarget⟩
  · rw [hsource, htarget]
    exact ⟨hnumeral e.1 hfirst, hnumeral e.2 hsecond⟩
  · rw [hsource, htarget]
    exact ⟨hnumeral e.2 hsecond, hnumeral e.1 hfirst⟩

theorem count_ends_recordsAt (hne : s ≠ t) (i : Nat) (e : Nat × Nat) :
    ((recordsAt directed i e).map Edge.ends).count (s, t) =
      if connects directed s t e then 1 else 0 := by
  unfold recordsAt connects
  cases directed with
  | true => simp [Edge.ends, List.count_singleton]
  | false =>
    -- Only one of the two records can lead from `s` to `t`.
    by_cases hthere : Text.numeral e.1 = s ∧ Text.numeral e.2 = t
    · obtain ⟨rfl, rfl⟩ := hthere
      simp [Edge.ends, hne, hne.symm]
    · by_cases hback : Text.numeral e.1 = t ∧ Text.numeral e.2 = s
      · obtain ⟨rfl, rfl⟩ := hback
        simp [Edge.ends, hne, hne.symm]
      · simp [Edge.ends, hthere, hback, and_comm]

theorem count_ends_ofEnds (hne : s ≠ t) :
    ((ofEnds directed nodeCount ends).edges.map Edge.ends).count (s, t) =
      ends.countP (connects directed s t) := by
  rw [edges_ofEnds]
  -- Ends do not tell the number of a line, so the count may start anywhere.
  generalize 0 = start
  induction ends generalizing start with
  | nil => rfl
  | cons e ends ih =>
    rw [List.zipIdx_cons, List.flatMap_cons, List.map_append, List.count_append, ih,
      count_ends_recordsAt hne, List.countP_cons, Nat.add_comm]

/-! ## 3. The couples of a text -/

theorem countP_zipIdx_fst {α : Type} (p : α → Bool) (l : List α) :
    l.zipIdx.countP (fun e => p e.1) = l.countP p := by
  show l.zipIdx.countP (p ∘ Prod.fst) = l.countP p
  rw [← List.countP_map, List.zipIdx_map_fst]

def couplesOf (ends : List (Nat × Nat)) : List Couple :=
  ends.zipIdx.map fun e => ⟨e.2, Text.numeral e.1.1, Text.numeral e.1.2⟩

theorem coupled_ofEnds (hlt : ∀ e ∈ ends, e.1 < nodeCount ∧ e.2 < nodeCount) :
    Coupled (ofEnds false nodeCount ends) (couplesOf ends) where
  undirected := directed_ofEnds false nodeCount ends
  numerals := by
    intro id hid
    rw [nodes_ofEnds] at hid
    obtain ⟨n, _, hn⟩ := List.mem_map.mp hid
    exact ⟨n, hn.symm⟩
  edges := by
    rw [edges_ofEnds, couplesOf, List.flatMap_map]
    rfl
  ends := by
    intro c hc
    obtain ⟨⟨e, i⟩, hmem, rfl⟩ := List.mem_map.mp hc
    have he : e ∈ ends := List.mem_of_getElem? (List.mk_mem_zipIdx_iff_getElem?.mp hmem)
    rw [nodes_ofEnds]
    exact ⟨List.mem_map.mpr ⟨e.1, List.mem_range.mpr (hlt e he).1, rfl⟩,
      List.mem_map.mpr ⟨e.2, List.mem_range.mpr (hlt e he).2, rfl⟩⟩
  distinct := by
    rw [couplesOf, List.map_map]
    show (ends.zipIdx.map Prod.snd).Nodup
    rw [List.zipIdx_map_snd]
    exact List.nodup_range'

theorem countP_joins_couplesOf (ends : List (Nat × Nat)) (s t : String) :
    (couplesOf ends).countP (·.joins s t) = ends.countP (connects false s t) := by
  rw [couplesOf, List.countP_map, ← countP_zipIdx_fst (connects false s t)]
  rfl

theorem Coupled.between_eq (h : Coupled g couples) (s t : String) :
    g.between s t = (couples.filter (·.joins s t)).flatMap Couple.records := by
  unfold between
  rw [h.edges]
  apply filter_flatMap_eq_flatMap_filter
  intro c _
  have hthere : c.there.joins s t = c.joins s t := rfl
  have hback : c.back.joins s t = c.joins s t := by
    simp only [Edge.joins, Couple.joins, Couple.back, Bool.and_comm, Bool.or_comm]
  rw [Couple.records, List.filter_cons, List.filter_cons, hthere, hback]
  cases c.joins s t <;> rfl

theorem Coupled.between_of_countP_le_one (h : Coupled g couples) (hne : s ≠ t)
    (hcount : couples.countP (·.joins s t) ≤ 1) :
    g.between s t = [] ∨ ∃ there back, (g.between s t).Perm [there, back] ∧ there.ends = (s, t) ∧
      back.ends = (t, s) ∧ there.pair = back.pair ∧ there.pair.isSome := by
  rw [h.between_eq]
  rw [List.countP_eq_length_filter] at hcount
  cases hfilter : couples.filter (·.joins s t) with
  | nil => exact Or.inl rfl
  | cons c others =>
    have hothers : others = [] := by
      rw [hfilter, List.length_cons] at hcount
      exact List.length_eq_zero_iff.mp (by omega)
    have hjoins : c.joins s t = true :=
      (List.mem_filter.mp (hfilter ▸ List.mem_cons_self : c ∈ couples.filter (·.joins s t))).2
    rw [hothers, List.flatMap_singleton]
    -- The couple was made from `s` to `t` or the other way round.
    rcases Couple.joins_iff.mp hjoins with ⟨rfl, rfl⟩ | ⟨rfl, rfl⟩
    · exact Or.inr ⟨c.there, c.back, List.Perm.refl _, rfl, rfl, rfl, rfl⟩
    · exact Or.inr ⟨c.back, c.there, List.Perm.swap _ _ _, rfl, rfl, rfl, rfl⟩

/-! ## 4. Ending a connection once -/

/-- When keys differ, one who takes away what was found first finds something else only if there was
more than one thing to find. -/
theorem find?_filter_key_ne_eq_none_iff {α β : Type} [BEq β] [LawfulBEq β] {l : List α}
    {key : α → β} {p : α → Bool} {c : α} (hkeys : (l.map key).Nodup) (hfind : l.find? p = some c) :
    (l.filter fun d => key d != key c).find? p = none ↔ l.countP p ≤ 1 := by
  -- None is wanted before `c`; those after it have other keys, so they are left.
  obtain ⟨hp, before, after, rfl, hbefore⟩ := List.find?_eq_some_iff_append.mp hfind
  have hnone : before.countP p = 0 := by
    rw [List.countP_eq_zero]
    intro d hd hpd
    simpa [hpd] using hbefore d hd
  rw [List.countP_append, List.countP_cons_of_pos hp, hnone, List.find?_eq_none]
  rw [List.map_append, List.map_cons, List.nodup_append] at hkeys
  have hafter : ∀ d ∈ after, key d ≠ key c := fun d hd heq =>
    (List.nodup_cons.mp hkeys.2.1).1 (heq ▸ List.mem_map_of_mem hd)
  constructor
  · intro h
    have hzero : after.countP p = 0 := by
      rw [List.countP_eq_zero]
      intro d hd
      apply h d
      rw [List.mem_filter, bne_iff_ne]
      exact ⟨List.mem_append_right _ (List.mem_cons_of_mem c hd), hafter d hd⟩
    omega
  · intro hcount d hd
    have hzero : after.countP p = 0 := by omega
    obtain ⟨hmem, hkey⟩ := List.mem_filter.mp hd
    rcases List.mem_append.mp hmem with hd | hd
    · exact (List.countP_eq_zero.mp hnone) d hd
    · rcases List.mem_cons.mp hd with rfl | hd
      · exact absurd rfl (bne_iff_ne.mp hkey)
      · exact (List.countP_eq_zero.mp hzero) d hd

theorem Coupled.edge?_disconnect_eq_none_iff (h : Coupled g couples) (s t : String) :
    (g.disconnect s t).1.edge? s t = none ↔ couples.countP (·.joins s t) ≤ 1 := by
  cases hfind : couples.find? (·.joins s t) with
  | none =>
    have hzero : couples.countP (·.joins s t) = 0 :=
      List.countP_eq_zero.mpr (List.find?_eq_none.mp hfind)
    rw [h.disconnect_of_find?_eq_none hfind, h.edge?_eq, hfind, hzero]
    exact iff_of_true rfl (Nat.zero_le 1)
  | some c =>
    rw [(h.disconnect_of_find?_eq_some hfind).edge?_eq, Option.map_eq_none_iff]
    exact find?_filter_key_ne_eq_none_iff h.distinct hfind

theorem edge?_disconnect_eq_none_iff_of_directed (hdirected : g.directed = true)
    (hids : (g.edges.map Edge.id).Nodup) (s t : String) :
    (g.disconnect s t).1.edge? s t = none ↔
      g.edges.countP (fun e => e.source == s && e.target == t) ≤ 1 := by
  cases hfind : g.edge? s t with
  | none =>
    have hzero : g.edges.countP (fun e => e.source == s && e.target == t) = 0 :=
      List.countP_eq_zero.mpr (List.find?_eq_none.mp hfind)
    rw [hzero, disconnect_of_recordIds_eq_nil (recordIds_eq_nil_iff.mpr hfind)]
    exact iff_of_true hfind (Nat.zero_le 1)
  | some record =>
    have hrecordIds : g.recordIds s t = [record.id] := by
      rw [recordIds_of_directed hdirected, hfind]
      rfl
    have hleft : (g.disconnect s t).1.edges = g.edges.filter fun e => e.id != record.id := by
      unfold Graph.disconnect
      rw [hrecordIds]
      show g.edges.filter (fun e => !([record.id].contains e.id)) = _
      apply List.filter_congr
      intro e _
      rw [List.contains_cons, List.contains_nil, Bool.or_false]
      rfl
    rw [edge?, hleft]
    exact find?_filter_key_ne_eq_none_iff hids hfind

theorem edges_ofEnds_true : (ofEnds true nodeCount ends).edges = ends.zipIdx.map fun e =>
    ⟨edgeId e.2, Text.numeral e.1.1, Text.numeral e.1.2, 0.0, none⟩ := by
  rw [edges_ofEnds, List.map_eq_flatMap]
  rfl

theorem nodup_ids_ofEnds_true : ((ofEnds true nodeCount ends).edges.map Edge.id).Nodup := by
  rw [edges_ofEnds_true, List.map_map]
  show (ends.zipIdx.map (edgeId ∘ Prod.snd)).Nodup
  rw [← List.map_map, List.zipIdx_map_snd]
  exact List.Nodup.map (fun i j hij => edgeId_inj.mp hij) List.nodup_range'

theorem edge?_disconnect_ofEnds_eq_none_iff (hlt : ∀ e ∈ ends, e.1 < nodeCount ∧ e.2 < nodeCount)
    (s t : String) :
    ((ofEnds directed nodeCount ends).disconnect s t).1.edge? s t = none ↔
      ends.countP (connects directed s t) ≤ 1 := by
  cases directed with
  | false => rw [(coupled_ofEnds hlt).edge?_disconnect_eq_none_iff, countP_joins_couplesOf]
  | true =>
    have hcount : (ofEnds true nodeCount ends).edges.countP
        (fun e => e.source == s && e.target == t) = ends.countP (connects true s t) := by
      rw [edges_ofEnds_true, List.countP_map, ← countP_zipIdx_fst (connects true s t)]
      apply List.countP_congr
      intro e _
      simp [connects]
    rw [edge?_disconnect_eq_none_iff_of_directed (directed_ofEnds true nodeCount ends)
      nodup_ids_ofEnds_true, hcount]

/-! ## 5. Which texts give simple graphs -/

theorem countP_connects_self (hlines : ∀ e ∈ ends, e.1 ≠ e.2) :
    ends.countP (connects directed s s) = 0 := by
  rw [List.countP_eq_zero]
  intro e he hconnects
  apply hlines e he
  apply Text.numeral_inj.mp
  simp only [connects, Bool.or_eq_true, Bool.and_eq_true, beq_iff_eq] at hconnects
  rcases hconnects with ⟨hsource, htarget⟩ | ⟨_, hsource, htarget⟩ <;>
    exact hsource.trans htarget.symm

theorem Loopless.count_ends_self (h : g.Loopless) : (g.edges.map Edge.ends).count (s, s) = 0 := by
  rw [List.count_eq_zero, List.mem_map]
  rintro ⟨record, hmem, hends⟩
  apply h record hmem
  have hsource : record.source = s := congrArg Prod.fst hends
  have htarget : record.target = s := congrArg Prod.snd hends
  rw [hsource, htarget]

theorem nodup_ends_ofEnds_iff (hlines : ∀ e ∈ ends, e.1 ≠ e.2) :
    ((ofEnds directed nodeCount ends).edges.map Edge.ends).Nodup ↔
      ∀ s t, ends.countP (connects directed s t) ≤ 1 := by
  have hcount : ∀ s t, ((ofEnds directed nodeCount ends).edges.map Edge.ends).count (s, t) =
      ends.countP (connects directed s t) := by
    intro s t
    by_cases hne : s = t
    · rw [hne, countP_connects_self hlines, (loopless_ofEnds_iff.mpr hlines).count_ends_self]
    · exact count_ends_ofEnds hne
  rw [List.nodup_iff_count_le_one, Prod.forall]
  simp only [hcount]

theorem simple_ofEnds_iff (hlt : ∀ e ∈ ends, e.1 < nodeCount ∧ e.2 < nodeCount) :
    (ofEnds directed nodeCount ends).Simple ↔
      (∀ e ∈ ends, e.1 ≠ e.2) ∧ ∀ s t, ends.countP (connects directed s t) ≤ 1 := by
  constructor
  · intro h
    have hlines := loopless_ofEnds_iff.mp h.loopless
    exact ⟨hlines, (nodup_ends_ofEnds_iff hlines).mp h.single⟩
  · rintro ⟨hlines, hcount⟩
    constructor
    case loopless => exact loopless_ofEnds_iff.mpr hlines
    case single => exact (nodup_ends_ofEnds_iff hlines).mpr hcount
    case bothWays =>
      intro hundirected s t hne
      rw [directed_ofEnds] at hundirected
      subst hundirected
      apply (coupled_ofEnds hlt).between_of_countP_le_one hne
      rw [countP_joins_couplesOf]
      exact hcount s t

/-- A graph that is read has no loop, no parallel records and in undirected mode one record each way
just when no line joins a node to itself and no two lines make the same connection; and ending a
connection once ends it just when one line at most makes it. -/
theorem simple_iff_of_read (hread : read text directed = .ok g) :
    ∃ nodeCount ends, GivesEnds (formatLines text) nodeCount ends ∧
      (g.Simple ↔
        (∀ e ∈ ends, e.1 ≠ e.2) ∧ ∀ s t, ends.countP (connects directed s t) ≤ 1) ∧
      ∀ s t, (g.disconnect s t).1.edge? s t = none ↔ ends.countP (connects directed s t) ≤ 1 := by
  obtain ⟨nodeCount, ends, hgives, rfl⟩ := exists_givesEnds_of_read hread
  exact ⟨nodeCount, ends, hgives, simple_ofEnds_iff hgives.lt,
    edge?_disconnect_ofEnds_eq_none_iff hgives.lt⟩

/-- Two lines that make different connections, and a graph that keeps each as one pair. -/
theorem simple_iff_of_read_of_two_lines :
    ∃ g, read "3 2
0 1
2 1" false = .ok g ∧ g.Simple ∧ (g.disconnect "1" "0").1.edge? "1" "0" = none := by
  have hgives : GivesEnds (formatLines "3 2
0 1
2 1") 3 [(0, 1), (2, 1)] := by
    have hlines : formatLines "3 2
0 1
2 1" = ["3 2", "0 1", "2 1"] := by decide +kernel
    rw [hlines]
    constructor
    case header => exact ⟨"3 2", rfl, numberPair?_eq_some_iff.mp (by decide +kernel)⟩
    case ends =>
      rintro (_ | _ | i) e he
      · cases he
        exact ⟨⟨"0 1", rfl, numberPair?_eq_some_iff.mp (by decide +kernel)⟩, by decide, by decide⟩
      · cases he
        exact ⟨⟨"2 1", rfl, numberPair?_eq_some_iff.mp (by decide +kernel)⟩, by decide, by decide⟩
      · exact nomatch he
  have hread := hgives.read_eq false
  obtain ⟨nodeCount, ends, hgives', hsimple, hdisconnect⟩ := simple_iff_of_read hread
  obtain ⟨rfl, rfl⟩ := hgives.unique hgives'
  have hcount : ∀ s t, [(0, 1), (2, 1)].countP (connects false s t) ≤ 1 := by
    intro s t
    by_cases hfirst : connects false s t (0, 1) = true
    · simp only [connects, Bool.or_eq_true, Bool.and_eq_true, beq_iff_eq] at hfirst
      rcases hfirst with ⟨rfl, rfl⟩ | ⟨_, rfl, rfl⟩ <;> decide +kernel
    · rw [List.countP_cons_of_neg hfirst]
      exact List.countP_le_length
  exact ⟨_, hread, hsimple.mpr ⟨by decide, hcount⟩, (hdisconnect "1" "0").mpr (hcount "1" "0")⟩

/-- A line that is repeated leaves a second pair behind, and a line that joins a node to itself a
loop. -/
theorem not_simple_of_repeated_line :
    (∃ g, read "2 2\n0 1\n0 1" false = .ok g ∧ ¬g.Simple ∧
      (g.disconnect "0" "1").1.edge? "0" "1" = some ⟨"edge-2", "0", "1", 0.0, some "0-1"⟩) ∧
    ∃ g, read "1 1\n0 0" false = .ok g ∧ ¬g.Loopless := by
  have hrepeated : read "2 2\n0 1\n0 1" false = .ok (ofEnds false 2 [(0, 1), (0, 1)]) := by
    decide +kernel
  have hloop : read "1 1\n0 0" false = .ok (ofEnds false 1 [(0, 0)]) := by decide +kernel
  refine ⟨⟨_, hrepeated, fun h => ?_, by decide +kernel⟩, _, hloop, fun h => ?_⟩
  · have hnodup := h.single
    revert hnodup
    decide +kernel
  · have hne := loopless_ofEnds_iff.mp h (0, 0) List.mem_cons_self
    exact hne rfl

/-! ## 6. Edits make no loops -/

theorem ends_of_mem_newRecords {e : Edge} (he : e ∈ g.newRecords s t) :
    e.ends = (s, t) ∨ e.ends = (t, s) := by
  unfold newRecords recordEnds at he
  cases hdirected : g.directed with
  | true =>
    simp only [hdirected, if_true, List.length_singleton, freshNumbers, List.zipWith_cons_cons,
      List.zipWith_nil_right, List.mem_singleton] at he
    exact Or.inl (he ▸ rfl)
  | false =>
    simp only [hdirected, Bool.false_eq_true, if_false, List.length_cons, List.length_nil,
      freshNumbers, List.zipWith_cons_cons, List.zipWith_nil_right, List.mem_pair] at he
    rcases he with rfl | rfl
    · exact Or.inl rfl
    · exact Or.inr rfl

theorem Loopless.edit (h : g.Loopless) (edit : Edit) : (g.edit edit).Loopless := by
  cases edit with
  | addNode => exact h
  | setDirected directed => exact h
  | removeNode id =>
    show (g.removeNode id).1.Loopless
    unfold Graph.removeNode
    split
    · exact fun e he => h e (List.mem_filter.mp he).1
    · exact h
  | disconnect source target => exact fun e he => h e (List.mem_filter.mp he).1
  | connect source target =>
    show (g.connect source target).1.Loopless
    rcases g.connect_cases source target with hconnect | ⟨hne, _, _, _, hconnect⟩ <;> rw [hconnect]
    · exact h
    · intro e he
      rcases List.mem_append.mp he with he | he
      · exact h e he
      · -- The new records lead from one of two different nodes to the other.
        rcases ends_of_mem_newRecords he with hends | hends <;> cases e <;> cases hends
        · exact hne
        · exact hne.symm

theorem Loopless.editAll (h : g.Loopless) (edits : List Edit) : (g.editAll edits).Loopless :=
  editAll_of_edit (fun edit _ _ hg => hg.edit edit) h

end Graph

end GraphReplay
