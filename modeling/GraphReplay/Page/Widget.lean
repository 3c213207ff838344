/-!
# Elements of the page

Every element of the page has a `Widget`, which says which one it is for as long as it is there.
`Markup` is what the page consists of, and `Fields` holds the live properties of elements: what the
page wrote last, or what the user entered after that.
-/

namespace GraphReplay

inductive Widget where
  | frame
  | canvas
  | overlay
  | title
  | subtitle
  | inputPanel
  | directedLabel
  | directedBox
  | weightedLabel
  | weightedBox
  | graphField
  | graphButton
  | graphError
  | traceField
  | traceButton
  | clearButton
  | controls
  | restartButton
  | backButton
  | runButton
  | forwardButton
  | speedLabel
  | speedSlider
  | speedText
  | status
  | messagePanel
  /-- The line of the message panel with this index. -/
  | message (index : Nat)
  | notFound
  | notFoundTitle
  | homeLink
deriving DecidableEq

/-- A text, or an element with its attributes and what is inside it. -/
inductive Markup where
  | text (content : String)
  | element (widget : Widget) (tag : String) (attributes : List (String × String))
    (children : List Markup)

namespace Markup

mutual

def elements : Markup → List (Widget × String)
  | text _ => []
  | element widget tag _ children => (widget, tag) :: elementsOfList children

def elementsOfList : List Markup → List (Widget × String)
  | [] => []
  | t :: ts => t.elements ++ elementsOfList ts

end

end Markup

/-- The live properties of an element that has any. -/
structure Properties where
  checked : Option Bool := none
  value : Option String := none
deriving DecidableEq

/-- Live properties by element, one entry at most for each. -/
abbrev Fields := List (Widget × Properties)

namespace Fields

def get (fields : Fields) (w : Widget) : Properties :=
  match fields.find? (·.1 == w) with
  | some (_, p) => p
  | none => {}

def put (fields : Fields) (w : Widget) (p : Properties) : Fields :=
  (w, p) :: fields.filter (·.1 != w)

def putChecked (fields : Fields) (w : Widget) (checked : Bool) : Fields :=
  fields.put w { fields.get w with checked := some checked }

def putValue (fields : Fields) (w : Widget) (value : String) : Fields :=
  fields.put w { fields.get w with value := some value }

def keep (fields : Fields) (present : List Widget) : Fields :=
  fields.filter fun f => present.contains f.1

@[simp] theorem get_put_self (fields : Fields) (w : Widget) (p : Properties) :
    (fields.put w p).get w = p := by
  simp [get, put]

theorem get_put_of_ne (fields : Fields) {w other : Widget} (h : other ≠ w) (p : Properties) :
    (fields.put w p).get other = fields.get other := by
  have hne : (w == other) = false := by simpa using Ne.symm h
  simp only [get, put, List.find?_cons, hne]
  congr 1
  induction fields with
  | nil => rfl
  | cons f fields ih =>
    by_cases hw : f.1 = w
    · have hf : (f.1 == other) = false := by simpa [hw] using Ne.symm h
      simp [hw, hne, ih]
    · by_cases ho : f.1 = other
      · simp [ho, h]
      · simp [hw, ho, ih]

theorem get_keep_of_mem {w : Widget} {present : List Widget} (h : w ∈ present) (fields : Fields) :
    (fields.keep present).get w = fields.get w := by
  have hfind : (fields.keep present).find? (·.1 == w) = fields.find? (·.1 == w) := by
    unfold keep
    rw [List.find?_filter]
    congr 1
    funext f
    cases hf : f.1 == w with
    | true =>
      rw [beq_iff_eq] at hf
      rw [hf, List.contains_iff_mem.mpr h]
      rfl
    | false => exact decide_eq_false fun hboth => Bool.false_ne_true hboth.2
  unfold get
  rw [hfind]

end Fields

end GraphReplay
