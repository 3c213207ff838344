import GraphReplay.Canvas.Drawing
import GraphReplay.Proofs.Canvas.Springs
import GraphReplay.Proofs.Graph.Formed

/-!
# The graph that a canvas shows

A canvas holds a graph by its bodies, its links and its mode.  Showing a graph puts it there, and
what happens to a canvas then, movement, another scene, another view, leaves it.  If the graph is
formed, nothing of it is lost: `Canvas.graph?` reads it back.
-/

namespace GraphReplay

/-! ## 1. Movement -/

namespace Layout

theorem id_foldl_push (dt : Float32) (force : Body → Body → Vec) (others : List Body) (b : Body) :
    (others.foldl (fun acc other => acc.push dt (force b other)) b).id = b.id :=
  List.foldlRecOn (motive := fun acc : Body => acc.id = b.id) others _ rfl fun _ h _ _ => h

theorem ids_sweep (dt : Float32) (springs : List (Nat × Nat)) (moved rest : List Body) :
    (sweep dt springs moved rest).map Body.id = moved.map Body.id ++ rest.map Body.id := by
  match rest with
  | [] =>
    rw [sweep]
    exact (List.append_nil _).symm
  | b :: after =>
    rw [sweep, ids_sweep dt springs, List.map_append, List.append_assoc, List.map_singleton,
      List.map_map]
    show _ ++ ([(after.foldl (fun (acc other : Body) => acc.push dt (b.repulsion other)) _).id] ++
      after.map Body.id) = _
    rw [id_foldl_push dt (fun _ => b.repulsion), id_foldl_push dt Body.attraction]
    rfl
termination_by rest.length
decreasing_by simp

theorem ids_tick? {dt : Float32} {l l' : Layout} (h : l.tick? dt = some l') :
    l'.bodies.map Body.id = l.bodies.map Body.id := by
  unfold tick? at h
  split at h
  · exact nomatch h
  · cases h
    exact ids_sweep dt l.springs [] l.bodies

end Layout

namespace Canvas

variable {c c' : Canvas} {g : Graph} {e : Edge} {l : Link}

theorem ids_place (c : Canvas) (nodes : List String) : (c.place nodes).map Body.id = nodes := by
  unfold place
  apply List.ext_getElem?
  intro i
  rw [List.getElem?_map, List.getElem?_mapIdx, Option.map_map]
  exact Option.map_id_apply

/-! ## 2. What a canvas shows -/

/-- The bodies are the nodes in order, and the links the records between nodes. -/
structure Shows (c : Canvas) (g : Graph) : Prop where
  ids : c.layout.bodies.map Body.id = g.nodes
  links : c.links = g.edges.filterMap (link? g.nodes)
  directed : c.directed = g.directed

theorem shows_setGraph (c : Canvas) (g : Graph) : (c.setGraph g).Shows g :=
  ⟨c.ids_place g.nodes, rfl, rfl⟩

theorem shows_new (g : Graph) (width height : Float) : (new g width height).Shows g :=
  shows_setGraph _ g

theorem Shows.tick? (h : c.Shows g) {dt : Float32} (htick : c.tick? dt = some c') :
    c'.Shows g := by
  obtain ⟨layout, hlayout, rfl⟩ := Option.map_eq_some_iff.mp htick
  exact ⟨(Layout.ids_tick? hlayout).trans h.ids, h.links, h.directed⟩

/-- The ways to a canvas that shows `g`.  All but the graph may change in between. -/
inductive BuiltFrom (g : Graph) : Canvas → Prop where
  | new (width height : Float) : BuiltFrom g (new g width height)
  | setGraph (c : Canvas) : BuiltFrom g (c.setGraph g)
  | tick {c c' : Canvas} (dt : Float32) : BuiltFrom g c → c.tick? dt = some c' → BuiltFrom g c'
  | restyle {c : Canvas} (scene : Scene) (weighted : Bool) (view : View Float)
      (width height flowTime : Float) :
    BuiltFrom g c → BuiltFrom g { c with scene, weighted, view, width, height, flowTime }

theorem BuiltFrom.shows (h : BuiltFrom g c) : c.Shows g := by
  induction h with
  | new width height => exact shows_new g width height
  | setGraph c => exact c.shows_setGraph g
  | tick dt _ htick ih => exact ih.tick? htick
  | restyle scene weighted view width height flowTime _ ih => exact ⟨ih.ids, ih.links, ih.directed⟩

/-! ## 3. Bodies by id -/

/-- Where the node with this id is drawn. -/
def placeOf? (c : Canvas) (id : String) : Option (Float × Float) :=
  (positionOf? c.layout.bodies id).map fun p => (p.x.toFloat, p.y.toFloat)

theorem exists_getElem?_of_lastIndex? {bodies : List Body} {id : String} {i : Nat}
    (h : lastIndex? id (bodies.map Body.id) = some i) : ∃ b, bodies[i]? = some b ∧ b.id = id := by
  have hid := getElem?_of_lastIndex? h
  rw [List.getElem?_map] at hid
  exact Option.map_eq_some_iff.mp hid

theorem getElem?_eq_find?_of_lastIndex? {bodies : List Body} {id : String} {i : Nat}
    (h : lastIndex? id (bodies.map Body.id) = some i) :
    bodies[i]? = bodies.reverse.find? (·.id == id) := by
  induction bodies generalizing i with
  | nil => exact nomatch h
  | cons b bodies ih =>
    rw [List.map_cons, lastIndex?] at h
    rw [List.reverse_cons, List.find?_append]
    split at h
    · next j hlater =>
      cases h
      obtain ⟨other, hother, _⟩ := exists_getElem?_of_lastIndex? hlater
      rw [← ih hlater, List.getElem?_cons_succ, hother]
      rfl
    · next hnone =>
      split at h
      · next heq =>
        cases h
        have hlast : bodies.reverse.find? (·.id == id) = none := by
          rw [List.find?_eq_none]
          intro other hother hid
          have hmem : id ∈ bodies.map Body.id :=
            List.mem_map.mpr ⟨other, List.mem_reverse.mp hother, beq_iff_eq.mp hid⟩
          obtain ⟨j, hj⟩ := exists_lastIndex?_of_mem hmem
          cases hnone.symm.trans hj
        rw [hlast, List.find?_singleton, beq_iff_eq.mpr heq]
        rfl
      · cases h

theorem exists_link? (hg : g.Formed) (he : e ∈ g.edges) :
    ∃ l, link? g.nodes e = some l ∧ l.pair = e.pair := by
  have hformed := hg.records e he
  obtain ⟨i, hi⟩ := exists_lastIndex?_of_mem hformed.source
  obtain ⟨j, hj⟩ := exists_lastIndex?_of_mem hformed.target
  exact ⟨_, link?_eq_some_iff.mpr ⟨i, j, hi, hj, rfl⟩, rfl⟩

/-- The record that a link was made of. -/
def record? (c : Canvas) (l : Link) : Option Edge :=
  match c.layout.bodies[l.source]?, c.layout.bodies[l.target]? with
  | some source, some target => some ⟨l.id, source.id, target.id, l.weight, l.pair⟩
  | _, _ => none

/-- The graph that a canvas shows, if every link is between bodies. -/
def graph? (c : Canvas) : Option Graph :=
  (c.links.mapM c.record?).map fun edges => ⟨c.layout.bodies.map Body.id, edges, c.directed⟩

namespace Shows

theorem pointOf?_eq_placeOf? (h : c.Shows g) {id : String} {i : Nat}
    (hindex : lastIndex? id g.nodes = some i) : c.pointOf? i = c.placeOf? id := by
  rw [← h.ids] at hindex
  unfold pointOf? placeOf? positionOf?
  rw [getElem?_eq_find?_of_lastIndex? hindex, Option.map_map]
  rfl

theorem exists_placeOf? (h : c.Shows g) {id : String} (hid : id ∈ g.nodes) :
    ∃ place, c.placeOf? id = some place := by
  obtain ⟨i, hi⟩ := exists_lastIndex?_of_mem hid
  obtain ⟨b, hb, _⟩ := exists_getElem?_of_lastIndex? (h.ids ▸ hi)
  rw [← h.pointOf?_eq_placeOf? hi, pointOf?, hb]
  exact ⟨_, rfl⟩

theorem record?_of_link? (h : c.Shows g) (hlink : link? g.nodes e = some l) :
    c.record? l = some e := by
  obtain ⟨i, j, hi, hj, rfl⟩ := link?_eq_some_iff.mp hlink
  obtain ⟨source, hsource, hsourceId⟩ := exists_getElem?_of_lastIndex? (h.ids ▸ hi)
  obtain ⟨target, htarget, htargetId⟩ := exists_getElem?_of_lastIndex? (h.ids ▸ hj)
  unfold record?
  rw [hsource, htarget]
  show some (Edge.mk e.id source.id target.id e.weight e.pair) = some e
  rw [hsourceId, htargetId]

/-- Of a graph whose records join nodes, a canvas that shows it has everything. -/
theorem graph?_eq (h : c.Shows g) (hg : g.Formed) : c.graph? = some g := by
  have hlinks : (g.edges.filterMap (link? g.nodes)).mapM c.record? = some g.edges := by
    have hrecords := fun e he => exists_link? (e := e) hg he
    generalize g.edges = edges at hrecords ⊢
    induction edges with
    | nil => rfl
    | cons e edges ih =>
      obtain ⟨l, hlink, _⟩ := hrecords e List.mem_cons_self
      rw [List.filterMap_cons_some hlink, List.mapM_cons, h.record?_of_link? hlink,
        ih fun other hother => hrecords other (List.mem_cons_of_mem e hother)]
      rfl
  unfold graph?
  rw [h.links, hlinks, h.ids, h.directed]
  rfl

end Shows

end Canvas

end GraphReplay
