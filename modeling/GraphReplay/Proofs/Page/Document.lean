import GraphReplay.Page.Window
import GraphReplay.Proofs.Playback.Standing
import Mathlib.Tactic.FinCases

/-!
# Looking into a document

How an element is found in a document and what is read off it, and what is found on the player page:
the lines of the message panel, and the controls with their labels if there is a trace.
-/

namespace GraphReplay

namespace Markup

/-! ## 1. Elements -/

mutual

/-- The first element for a widget. -/
def find? (w : Widget) : Markup → Option Markup
  | text _ => none
  | element widget tag attributes children =>
    if widget = w then some (element widget tag attributes children) else findIn? w children

def findIn? (w : Widget) : List Markup → Option Markup
  | [] => none
  | t :: ts => (t.find? w).or (findIn? w ts)

end

mutual

/-- The texts in an element, one after the other. -/
def content : Markup → String
  | text content => content
  | element _ _ _ children => contentOf children

def contentOf : List Markup → String
  | [] => ""
  | t :: ts => t.content ++ contentOf ts

end

def children : Markup → List Markup
  | text _ => []
  | element _ _ _ children => children

def attribute? (name : String) : Markup → Option String
  | text _ => none
  | element _ _ attributes _ => attributes.lookup name

variable {w : Widget}

theorem findIn?_append (ts us : List Markup) :
    findIn? w (ts ++ us) = (findIn? w ts).or (findIn? w us) := by
  induction ts with
  | nil => rfl
  | cons t ts ih => rw [List.cons_append, findIn?, ih, findIn?, Option.or_assoc]

theorem findIn?_eq_none {ts : List Markup} (h : ∀ t ∈ ts, t.find? w = none) :
    findIn? w ts = none := by
  induction ts with
  | nil => rfl
  | cons t ts ih =>
    rw [findIn?, h t List.mem_cons_self, ih fun u hu => h u (List.mem_cons_of_mem t hu)]
    rfl

theorem content_labelled (widget : Widget) (tag styleClass words : String) :
    (labelled widget tag styleClass words).content = words :=
  String.append_empty

end Markup

namespace Desk

open Markup

variable {h : Desk} {w : Widget}

/-! ## 2. The player page -/

/-- The elements that tell of the player and are there for that alone. -/
def tellers : List Widget :=
  [.controls, .runButton, .status, .messagePanel]

theorem find?_inputMarkup (h : Desk) (hw : w ∈ tellers) : h.inputMarkup.find? w = none := by
  unfold inputMarkup
  fin_cases hw <;> cases h.graphError <;> rfl

theorem find?_overlayMarkup (hw : w ∈ tellers) : overlayMarkup.find? w = none := by
  fin_cases hw <;> rfl

theorem ne_message (hw : w ∈ tellers) (i : Nat) : Widget.message i ≠ w := by
  rintro rfl
  simp [tellers] at hw

theorem find?_messageMarkup (p : Player) (hw : w ∈ tellers) (hpanel : w ≠ .messagePanel) :
    (messageMarkup p).find? w = none := by
  unfold messageMarkup
  rw [find?, if_neg hpanel.symm]
  apply findIn?_eq_none
  intro t ht
  obtain ⟨i, _, rfl⟩ := List.mem_mapIdx.mp ht
  unfold labelled
  rw [find?, if_neg (ne_message hw i)]
  rfl

/-- Only the controls and the message panel are left to look into. -/
theorem find?_markup (h : Desk) (hw : w ∈ tellers) :
    h.markup.find? w =
      (findIn? w (if hasControls h.player then [controlsMarkup h.player] else [])).or
        ((messageMarkup h.player).find? w) := by
  have hframe : Widget.frame ≠ w := by
    rintro rfl
    exact absurd hw (by decide)
  have hcanvas : Widget.canvas ≠ w := by
    rintro rfl
    exact absurd hw (by decide)
  unfold markup
  rw [find?, if_neg hframe, findIn?_append, findIn?_append]
  simp only [findIn?, find?, if_neg hcanvas, find?_overlayMarkup hw, find?_inputMarkup h hw,
    Option.none_or, Option.or_none]

/-- A line has the class of the kind of its message. -/
theorem map_children_messageMarkup (p : Player) :
    (messageMarkup p).children.map (fun line => (line.attribute? "class", line.content)) =
      p.scene.messages.map fun m => (some m.severity.styleClass, m.text) := by
  apply List.ext_getElem?
  intro i
  unfold messageMarkup
  rw [children, List.getElem?_map, List.getElem?_mapIdx, Option.map_map, List.getElem?_map]
  apply Option.map_congr
  intro m _
  rw [Function.comp_apply, content_labelled]
  rfl

/-! ## 3. What it tells -/

theorem hasControls_iff {p : Player} : hasControls p = true ↔ p.commands ≠ [] := by
  unfold hasControls
  rw [bne_iff_ne, Ne, Player.phase_eq_idle_iff]

/-- What the page tells of the player. -/
structure Tells (document : Markup) (p : Player) : Prop where
  /-- The lines of the panel are the messages, in this order, each of the class of its kind. -/
  messages : (document.find? .messagePanel).map
      (·.children.map fun line => (line.attribute? "class", line.content)) =
    some (p.scene.messages.map fun m => (some m.severity.styleClass, m.text))
  controls : (document.find? .controls).isSome = true ↔ p.commands ≠ []
  runLabel : (document.find? .runButton).map content =
    if p.commands = [] then none else some (if p.paused then "Run" else "Stop")
  status : (document.find? .status).map content =
    if p.commands = [] then none
    else some (Text.numeral p.cursor ++ " / " ++ Text.numeral p.commands.length ++
      " (" ++ p.phase.label ++ ")")

theorem find?_markup_of_empty (hempty : h.player.commands = []) (hw : w ∈ tellers)
    (hpanel : w ≠ .messagePanel) : h.markup.find? w = none := by
  have hcontrols : hasControls h.player = false :=
    Bool.eq_false_iff.mpr fun hcontrols => hasControls_iff.mp hcontrols hempty
  rw [find?_markup h hw, hcontrols, find?_messageMarkup h.player hw hpanel]
  rfl

theorem find?_markup_of_ne (hcommands : h.player.commands ≠ []) (hw : w ∈ tellers)
    (hpanel : w ≠ .messagePanel) :
    h.markup.find? w = (controlsMarkup h.player).find? w := by
  rw [find?_markup h hw, if_pos (hasControls_iff.mpr hcommands),
    find?_messageMarkup h.player hw hpanel, findIn?, findIn?, Option.or_none, Option.or_none]

theorem tells_markup (h : Desk) : Tells h.markup h.player where
  messages := by
    have hpanel : (findIn? .messagePanel
        (if hasControls h.player then [controlsMarkup h.player] else [])) = none := by
      split <;> rfl
    have hself : (messageMarkup h.player).find? .messagePanel = some (messageMarkup h.player) := rfl
    -- The panel is looked for in the controls first if they are there.
    rw [find?_markup h (by decide), hpanel, hself, Option.none_or, Option.map_some,
      map_children_messageMarkup]
  controls := by
    by_cases hempty : h.player.commands = []
    · rw [find?_markup_of_empty hempty (by decide) (by decide)]
      exact iff_of_false Bool.false_ne_true fun hne => hne hempty
    · rw [find?_markup_of_ne hempty (by decide) (by decide)]
      exact iff_of_true rfl hempty
  runLabel := by
    by_cases hempty : h.player.commands = []
    · rw [find?_markup_of_empty hempty (by decide) (by decide), if_pos hempty]
      rfl
    · have hbutton : (controlsMarkup h.player).find? .runButton = some (button .runButton
          (if h.player.paused then buttonClass else buttonClass ++ " active")
          (if h.player.paused then "Run" else "Stop")) := rfl
      rw [find?_markup_of_ne hempty (by decide) (by decide), if_neg hempty, hbutton,
        Option.map_some, button, content_labelled]
  status := by
    by_cases hempty : h.player.commands = []
    · rw [find?_markup_of_empty hempty (by decide) (by decide), if_pos hempty]
      rfl
    · have hline : (controlsMarkup h.player).find? .status =
          some (labelled .status "span" "status" (statusText h.player)) := rfl
      rw [find?_markup_of_ne hempty (by decide) (by decide), if_neg hempty, hline,
        Option.map_some, content_labelled]
      rfl

end Desk

end GraphReplay
