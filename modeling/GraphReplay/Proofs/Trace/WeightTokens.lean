import GraphReplay.Proofs.Decimal.Scan
import GraphReplay.Proofs.Decimal.Values
import GraphReplay.Proofs.Trace.Grammar

/-!
# Tokens of weights

The weight that a token of a trace gives is that of the longest literal at its beginning, when this
is a finite number.  Texts are sequences of bytes: a search for the literal through all numbers of
bytes, the greatest first, has to pass over those that end inside a character, and then it never
cuts one (`searchBytes?_spec`).  It finds what one pass over the characters finds.
-/

namespace GraphReplay

namespace Decimal

/-! ## 1. Beginnings by bytes -/

/-- The first `n` bytes, unless they end inside a character. -/
def firstBytes? (s : String) (n : Nat) : Option String :=
  String.fromUTF8? (s.toByteArray.extract 0 n)

/-- Byte `n` is the first one of a character, or the text ends before it. -/
def isBoundary (s : String) (n : Nat) : Bool :=
  String.Pos.Raw.isValid s ⟨n⟩

/-- The longest of the beginnings of up to `n` bytes that can be read as a number.  Nothing at all
comes of a search that cuts a character. -/
def searchBytes? (s : String) : Nat → Option (Option String)
  | 0 => some none
  | n + 1 =>
    if isBoundary s (n + 1) then
      (firstBytes? s (n + 1)).bind fun text =>
        if (read? text).isSome then some (some text) else searchBytes? s n
    else searchBytes? s n

/-- The double that the longest number at the beginning of a text denotes, found byte by byte; zero
when there is none or it is not finite. -/
def readBytes? (s : String) : Option Float :=
  (searchBytes? s s.utf8ByteSize).map fun found =>
    let value := (found.bind read?).getD 0.0
    if value.isFinite then value else 0.0

def byteLength (cs : List Char) : Nat :=
  (String.ofList cs).utf8ByteSize

variable {s : String} {n : Nat} {p q : List Char}

theorem firstBytes?_byteLength (h : p <+: s.toList) :
    firstBytes? s (byteLength p) = some (String.ofList p) := by
  obtain ⟨rest, hs⟩ := h
  have hsplit : s = String.ofList p ++ String.ofList rest := by
    rw [← String.ofList_append, hs, String.ofList_toList]
  unfold firstBytes? byteLength
  rw [hsplit, String.toByteArray_append,
    ByteArray.extract_append_eq_left String.size_toByteArray.symm]
  exact dif_pos (String.ofList p).isValidUTF8

theorem isBoundary_iff : isBoundary s n = true ↔ ∃ p, p <+: s.toList ∧ byteLength p = n := by
  unfold isBoundary byteLength
  rw [String.Pos.Raw.isValid_eq_true_iff, String.Pos.Raw.isValid_iff_exists_append]
  constructor
  · rintro ⟨s₁, s₂, rfl, hn⟩
    refine ⟨s₁.toList, ⟨s₂.toList, String.toList_append.symm⟩, ?_⟩
    rw [String.ofList_toList]
    exact (congrArg String.Pos.Raw.byteIdx hn).symm
  · rintro ⟨p, ⟨rest, hs⟩, rfl⟩
    refine ⟨String.ofList p, String.ofList rest, ?_, rfl⟩
    rw [← String.ofList_append, hs, String.ofList_toList]

theorem byteLength_append (p q : List Char) :
    byteLength (p ++ q) = byteLength p + byteLength q := by
  unfold byteLength
  rw [String.ofList_append, String.utf8ByteSize_append]

theorem byteLength_eq_zero_iff : byteLength p = 0 ↔ p = [] := by
  unfold byteLength
  rw [String.utf8ByteSize_eq_zero_iff, ← String.toList_inj, String.toList_ofList]
  rfl

/-- Of two beginnings the one with more bytes is the longer one. -/
theorem prefix_of_byteLength_le {cs : List Char} (hp : p <+: cs) (hq : q <+: cs)
    (h : byteLength q ≤ byteLength p) : q <+: p := by
  rcases List.prefix_or_prefix_of_prefix hp hq with ⟨rest, rfl⟩ | hprefix
  · rw [byteLength_append] at h
    have hrest : rest = [] := byteLength_eq_zero_iff.mp (by omega)
    rw [hrest, List.append_nil]
  · exact hprefix

theorem eq_of_byteLength_eq {cs : List Char} (hp : p <+: cs) (hq : q <+: cs)
    (h : byteLength p = byteLength q) : p = q :=
  (prefix_of_byteLength_le hq hp h.le).eq_of_length_le
    (prefix_of_byteLength_le hp hq h.ge).length_le

theorem read?_ofList_isSome_iff : (read? (String.ofList p)).isSome = true ↔ ∃ l, Denotes p l := by
  unfold read?
  rw [String.toList_ofList, Option.isSome_map, Option.isSome_iff_exists]
  simp only [literal?_eq_some_iff]

theorem not_denotes_nil (l : Literal) : ¬Denotes [] l := by
  rw [← literal?_eq_some_iff]
  exact nofun

/-- What is to be found among the beginnings of up to `n` bytes: the longest literal, if any. -/
inductive Finds (s : String) (n : Nat) : Option String → Prop where
  | literal {p : List Char}
      (h : Longest (fun q => byteLength q ≤ n ∧ ∃ l, Denotes q l) s.toList p) :
      Finds s n (some (String.ofList p))
  | nothing (h : ∀ p, p <+: s.toList → byteLength p ≤ n → ∀ l, ¬Denotes p l) : Finds s n none

variable {found : Option String}

theorem Finds.zero (s : String) : Finds s 0 none := by
  apply Finds.nothing
  intro p _ hp l
  rw [byteLength_eq_zero_iff.mp (Nat.le_zero.mp hp)]
  exact not_denotes_nil l

/-- A literal of exactly `n` bytes is the longest one. -/
theorem Finds.of_byteLength (hp : p <+: s.toList) (hlength : byteLength p = n)
    (hdenotes : ∃ l, Denotes p l) : Finds s n (some (String.ofList p)) := by
  refine .literal ⟨hp, ⟨hlength.le, hdenotes⟩, ?_⟩
  rintro q hq ⟨hle, _⟩
  exact prefix_of_byteLength_le hp hq (by omega)

theorem Finds.succ (h : Finds s n found)
    (hnone : ∀ q, q <+: s.toList → byteLength q = n + 1 → ∀ l, ¬Denotes q l) :
    Finds s (n + 1) found := by
  have hless : ∀ q, q <+: s.toList → byteLength q ≤ n + 1 → ∀ l, Denotes q l →
      byteLength q ≤ n := by
    intro q hq hle l hl
    have hne : byteLength q ≠ n + 1 := fun heq => hnone q hq heq l hl
    omega
  cases h with
  | literal h =>
    obtain ⟨hp, ⟨hle, hdenotes⟩, hlongest⟩ := h
    refine .literal ⟨hp, ⟨by omega, hdenotes⟩, ?_⟩
    rintro q hq ⟨hqle, l, hl⟩
    exact hlongest q hq ⟨hless q hq hqle l hl, l, hl⟩
  | nothing h => exact .nothing fun p hp hle l hl => h p hp (hless p hp hle l hl) l hl

/-- The search cuts no character, and finds the longest literal. -/
theorem searchBytes?_spec (s : String) (n : Nat) :
    ∃ found, searchBytes? s n = some found ∧ Finds s n found := by
  induction n with
  | zero => exact ⟨none, rfl, Finds.zero s⟩
  | succ n ih =>
    obtain ⟨found, hsearch, hfinds⟩ := ih
    by_cases hboundary : isBoundary s (n + 1) = true
    · obtain ⟨p, hp, hlength⟩ := isBoundary_iff.mp hboundary
      have hfirst := firstBytes?_byteLength hp
      rw [hlength] at hfirst
      rw [searchBytes?, if_pos hboundary, hfirst, Option.bind_some]
      by_cases hread : (read? (String.ofList p)).isSome = true
      · exact ⟨_, if_pos hread, .of_byteLength hp hlength (read?_ofList_isSome_iff.mp hread)⟩
      · refine ⟨found, (if_neg hread).trans hsearch, hfinds.succ fun q hq hq' l hl => ?_⟩
        have hsame : q = p := eq_of_byteLength_eq hq hp (hq'.trans hlength.symm)
        exact hread (read?_ofList_isSome_iff.mpr ⟨l, hsame ▸ hl⟩)
    · rw [searchBytes?, if_neg hboundary]
      refine ⟨found, hsearch, hfinds.succ fun q hq hlength => ?_⟩
      exact absurd (isBoundary_iff.mpr ⟨q, hq, hlength⟩) hboundary

theorem byteLength_toList (s : String) : byteLength s.toList = s.utf8ByteSize := by
  unfold byteLength
  rw [String.ofList_toList]

theorem byteLength_mono (h : p <+: q) : byteLength p ≤ byteLength q := by
  obtain ⟨rest, rfl⟩ := h
  rw [byteLength_append]
  exact Nat.le_add_right _ _

/-- The three searches find the same beginning, and from it the number is read. -/
theorem readLeading_spec (s : String) :
    (∃ p l, Leads s.toList p ∧ Denotes p l ∧ leadingLength? s.toList = some p.length ∧
      searchBytes? s s.utf8ByteSize = some (some (String.ofList p)) ∧
      read? (String.ofList p) = some l.value ∧
      readLeading s = if l.value.isFinite then l.value else 0.0) ∨
    ((∀ p, p <+: s.toList → ∀ l, ¬Denotes p l) ∧ leadingLength? s.toList = none ∧
      searchBytes? s s.utf8ByteSize = some none ∧ readLeading s = 0.0) := by
  have hlength := leadingLength?_spec s.toList
  obtain ⟨found, hsearch, hfinds⟩ := searchBytes?_spec s s.utf8ByteSize
  have hall : ∀ {p}, p <+: s.toList → byteLength p ≤ s.utf8ByteSize := fun hp =>
    (byteLength_mono hp).trans (byteLength_toList s).le
  unfold readLeading
  cases hliteral : longestLiteral? s.toList with
  | some l =>
    left
    obtain ⟨p, hp, hl⟩ := leads_of_longestLiteral? hliteral
    refine ⟨p, l, hp, hl, ?_, ?_, ?_, rfl⟩
    · rcases hlength with ⟨q, hq, hlength⟩ | ⟨hnone, _⟩
      · rw [hlength, hp.unique hq]
      · exact absurd hl (hnone p hp.isPrefix l)
    · rw [hsearch]
      cases hfinds with
      | literal h =>
        have hlongest := h.longest p hp.isPrefix ⟨hall hp.isPrefix, hp.holds⟩
        have hlonger := hp.longest _ h.isPrefix h.holds.2
        rw [hlongest.eq_of_length_le hlonger.length_le]
      | nothing h => exact absurd hl (h p hp.isPrefix (hall hp.isPrefix) l)
    · unfold read?
      rw [String.toList_ofList, literal?_eq_some_iff.mpr hl]
      rfl
  | none =>
    right
    have hnone := fun p hp => @not_denotes_of_longestLiteral? s.toList hliteral p hp
    refine ⟨hnone, ?_, ?_, rfl⟩
    · rcases hlength with ⟨q, hq, _⟩ | ⟨_, hlength⟩
      · obtain ⟨l, hl⟩ := hq.holds
        exact absurd hl (hnone q hq.isPrefix l)
      · exact hlength
    · rw [hsearch]
      cases hfinds with
      | literal h =>
        obtain ⟨l, hl⟩ := h.holds.2
        exact absurd hl (hnone _ h.isPrefix l)
      | nothing _ => rfl

theorem readBytes?_eq (s : String) : readBytes? s = some (readLeading s) := by
  have hzero : (0.0 : Float).isFinite = true := by decide +kernel
  unfold readBytes?
  rcases readLeading_spec s with ⟨p, l, _, _, _, hsearch, hread, hvalue⟩ | ⟨_, _, hsearch, hvalue⟩
  · rw [hsearch, hvalue, Option.map_some]
    dsimp only
    rw [Option.bind_some, hread, Option.getD_some]
  · rw [hsearch, hvalue, Option.map_some]
    dsimp only
    rw [Option.bind_none, Option.getD_none, if_pos hzero]

end Decimal

/-! ## 2. Weights -/

theorem Player.finiteWeights_run (settings : Settings) (ops : List Operation) :
    ((new settings).run ops).FiniteWeights :=
  List.foldlRecOn (motive := FiniteWeights) ops after (finiteWeights_new settings)
    fun p hp op _ => hp.change (p.after_change op)

namespace Command

open Decimal

/-- The weight that a token gives is the double that the longest literal at its beginning denotes,
and zero when this is not finite or there is no literal.  A search through the bytes, a pass over
the characters and the search through all lengths find the same literal, and none of them fails.
The finite literals are the numbers that do not overflow, and these denote the nearest doubles.
Weights in scenes of players are finite. -/
theorem weight_of_token :
    (∀ token : String,
      ((∃ p l, Leads token.toList p ∧ Denotes p l ∧
          leadingLength? token.toList = some p.length ∧
          searchBytes? token token.utf8ByteSize = some (some (String.ofList p)) ∧
          read? (String.ofList p) = some l.value ∧
          readLeading token = if l.value.isFinite then l.value else 0.0) ∨
        ((∀ p, p <+: token.toList → ∀ l, ¬Denotes p l) ∧
          leadingLength? token.toList = none ∧
          searchBytes? token token.utf8ByteSize = some none ∧ readLeading token = 0.0)) ∧
      readBytes? token = some (readLeading token) ∧ (readLeading token).isFinite = true) ∧
    (∀ l : Literal, l.value.isFinite = true ↔
      ∃ negative d e, l = .number negative d e ∧ (d : ℚ) * 10 ^ e < overflow) ∧
    (∀ (negative : Bool) (d : Nat) (e : Int),
      let v := (d : ℚ) * 10 ^ e
      let x := (Literal.number negative d e).value
      (v ≤ 1 / 2 ^ 1075 → x = if negative then -0.0 else 0.0) ∧
      (1 / 2 ^ 1075 < v → v < overflow → IsNearest x negative v)) ∧
    (∀ (line source target token : String) (surplus : List String),
      Text.tokens line = "setEdgeWeight" :: source :: target :: token :: surplus →
      (read line).action = .ok (.setEdgeWeight source target (readLeading token))) ∧
    ∀ (settings : Settings) (ops : List Operation) (id : String) (weight : Float),
      (((Player.new settings).run ops).scene.edges.get id).weight = some weight →
      weight.isFinite = true := by
  refine ⟨?_, isFinite_value_iff, ?_, ?_, ?_⟩
  · intro token
    exact ⟨readLeading_spec token, readBytes?_eq token, isFinite_readLeading token⟩
  · intro negative d e v x
    rcases value_number_cases negative d e with ⟨htiny, hx⟩ | ⟨hleast, _, hx⟩ | ⟨hover, _⟩
    · exact ⟨fun _ => hx, fun hlarge => absurd htiny (not_le.mpr hlarge)⟩
    · exact ⟨fun hsmall => absurd hsmall (not_le.mpr hleast), fun _ _ => hx⟩
    · have hleast := least_lt_overflow.trans_le hover
      exact ⟨fun hsmall => absurd hsmall (not_le.mpr hleast),
        fun _ hv => absurd hv (not_lt.mpr hover)⟩
  · intro line source target token surplus htokens
    rw [action_read_eq_ok_iff, htokens]
    exact .setEdgeWeight source target token surplus
  · intro settings ops id weight
    have hscene := (Player.finiteWeights_run settings ops).scene
    exact hscene.get EdgeMarks.finiteWeight_default id weight

/-- An exponent that is not completed by the two bytes after its sign, and a power of ten that is
past the range of doubles. -/
theorem weight_of_token_of_unfinished_exponent :
    let text := "setEdgeWeight 0 1 -1.5e+é\nsetEdgeWeight 1 0 1e400é"
    let ops : List Operation := [.readGraph "2 1\n0 1", .loadTrace text, .forward]
    leadingLength? "-1.5e+é".toList = some 4 ∧
      searchBytes? "-1.5e+é" 8 = some (some "-1.5") ∧
      (read "setEdgeWeight 0 1 -1.5e+é").action = .ok (.setEdgeWeight "0" "1" (-1.5)) ∧
      (read "setEdgeWeight 1 0 1e400é").action = .ok (.setEdgeWeight "1" "0" 0.0) ∧
      (((Player.new Settings.standard).run ops).scene.edges.get "edge-0").weight = some (-1.5) ∧
      (-1.5 : Float).isFinite = true := by
  intro text ops
  obtain ⟨_, _, _, hread, hscene⟩ := weight_of_token
  have hshort : readLeading "-1.5e+é" = -1.5 := by decide +kernel
  have hlarge : readLeading "1e400é" = 0.0 := by decide +kernel
  have hfirst := hread "setEdgeWeight 0 1 -1.5e+é" "0" "1" "-1.5e+é" [] (by decide +kernel)
  have hsecond := hread "setEdgeWeight 1 0 1e400é" "1" "0" "1e400é" [] (by decide +kernel)
  rw [hshort] at hfirst
  rw [hlarge] at hsecond
  have hweight : (((Player.new Settings.standard).run ops).scene.edges.get "edge-0").weight =
      some (-1.5) := by decide +kernel
  have hfinite := hscene Settings.standard ops "edge-0" (-1.5) hweight
  exact ⟨by decide +kernel, by decide +kernel, hfirst, hsecond, hweight, hfinite⟩

end Command

end GraphReplay
