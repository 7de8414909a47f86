import GGateway.Router.Precedence

/-!
# The path trie

The index structure of `internal/router/router.go`: `Compile` inserts each
candidate along its path segments.  The second half says what a trie stands for
without reference to its shape, and that insertion adds one candidate to it.
-/

namespace GGateway.Router

open Text Library

/-- A trie node.  `static` lists the entries of a map; `upper` is `none` when
`upperValid` is false. -/
inductive PathNode where
  | mk (static : List (Bytes × PathNode)) (parameter : Option PathNode)
      (terminal prefixes catchAll : List Candidate) (upper : Option PrecedenceKey)

namespace PathNode

def static : PathNode → List (Bytes × PathNode)
  | mk static _ _ _ _ _ => static

def parameter : PathNode → Option PathNode
  | mk _ parameter _ _ _ _ => parameter

def terminal : PathNode → List Candidate
  | mk _ _ terminal _ _ _ => terminal

def prefixes : PathNode → List Candidate
  | mk _ _ _ prefixes _ _ => prefixes

def catchAll : PathNode → List Candidate
  | mk _ _ _ _ catchAll _ => catchAll

def upper : PathNode → Option PrecedenceKey
  | mk _ _ _ _ _ upper => upper

/-- `&pathNode\x7b\x7d`. -/
def empty : PathNode :=
  mk [] none [] [] [] none

end PathNode

/-- The loop of `insertCandidate` over the remaining segments. -/
def insertAlong (value : Candidate) : List PathSegment → PathNode → PathNode
  | [], .mk static parameter terminal prefixes catchAll upper =>
    .mk static parameter (terminal ++ [value]) prefixes catchAll upper
  | .segmentPrefix :: _, .mk static parameter terminal prefixes catchAll upper =>
    .mk static parameter terminal (prefixes ++ [value]) catchAll upper
  | .segmentCatchAll _ :: _, .mk static parameter terminal prefixes catchAll upper =>
    .mk static parameter terminal prefixes (catchAll ++ [value]) upper
  | .segmentParameter _ :: rest, .mk static parameter terminal prefixes catchAll upper =>
    .mk static (some (insertAlong value rest (parameter.getD .empty))) terminal prefixes
      catchAll upper
  | .segmentStatic text :: rest, .mk static parameter terminal prefixes catchAll upper =>
    .mk (Assoc.upsert text (fun child => insertAlong value rest (child.getD .empty)) static)
      parameter terminal prefixes catchAll upper

def insertCandidate (root : PathNode) (value : Candidate) : PathNode :=
  insertAlong value value.path.segments root

/-! ## What a trie represents

The candidates of a tree with the segments still to follow from a node are its
*items*.  A node represents a list of items when its own lists hold the items
that end there and each child represents the items that continue into it. -/

abbrev Item := List PathSegment × Candidate

variable (items : List Item)

def atTerminal : List Candidate :=
  items.filterMap fun item =>
    match item.1 with
    | [] => some item.2
    | _ => none

def atPrefix : List Candidate :=
  items.filterMap fun item =>
    match item.1 with
    | .segmentPrefix :: _ => some item.2
    | _ => none

def atCatchAll : List Candidate :=
  items.filterMap fun item =>
    match item.1 with
    | .segmentCatchAll _ :: _ => some item.2
    | _ => none

def underParameter : List Item :=
  items.filterMap fun item =>
    match item.1 with
    | .segmentParameter _ :: rest => some (rest, item.2)
    | _ => none

def underStatic (text : Bytes) (items : List Item) : List Item :=
  items.filterMap fun item =>
    match item.1 with
    | .segmentStatic stored :: rest => if stored = text then some (rest, item.2) else none
    | _ => none

/-- Selecting items keeps their keys in order. -/
theorem map_filterMap_sublist {α β γ : Type*} {select : α → Option β} {after : β → γ}
    {before : α → γ} (h : ∀ item kept, select item = some kept → after kept = before item)
    (items : List α) : ((items.filterMap select).map after).Sublist (items.map before) := by
  induction items with
  | nil => simp
  | cons item rest ih =>
    cases hselect : select item with
    | none =>
      rw [List.filterMap_cons_none hselect]
      exact ih.cons _
    | some kept =>
      rw [List.filterMap_cons_some hselect, List.map_cons, List.map_cons, h item kept hselect]
      exact ih.cons_cons _

/-- A node and its descendants represent a list of items; `Local` says what is
asked of each node's own fields. -/
inductive Represents (Local : PathNode → List Item → Prop) : PathNode → List Item → Prop
  | intro {node : PathNode} {items : List Item}
      (own : Local node items)
      (keyed : Assoc.Keyed node.static)
      (static_none : ∀ text, node.static.lookup text = none ↔ underStatic text items = [])
      (static_some : ∀ text child, node.static.lookup text = some child →
        Represents Local child (underStatic text items))
      (parameter_none : node.parameter = none ↔ underParameter items = [])
      (parameter_some : ∀ child, node.parameter = some child →
        Represents Local child (underParameter items)) :
      Represents Local node items

variable {node : PathNode} {items : List Item}

theorem Represents.own {Local : PathNode → List Item → Prop} (h : Represents Local node items) :
    Local node items := by
  obtain ⟨own, _⟩ := h
  exact own

/-- A node while candidates are being inserted. -/
structure Raw (node : PathNode) (items : List Item) : Prop where
  terminal : node.terminal = atTerminal items
  prefixes : node.prefixes = atPrefix items
  catchAll : node.catchAll = atCatchAll items
  upper : node.upper = none

theorem represents_empty : Represents Raw PathNode.empty [] := by
  refine Represents.intro ⟨rfl, rfl, rfl, rfl⟩ Assoc.keyed_nil ?_ ?_ ?_ ?_
  · intro text
    exact iff_of_true rfl rfl
  · intro text child h
    simp [PathNode.empty, PathNode.static] at h
  · exact iff_of_true rfl rfl
  · intro child h
    simp [PathNode.empty, PathNode.parameter] at h

/-- Getting or creating a child: an absent one represents no items. -/
theorem Represents.getD_parameter (h : Represents Raw node items) :
    Represents Raw (node.parameter.getD .empty) (underParameter items) := by
  obtain ⟨_, _, _, _, hnone, hsome⟩ := h
  cases hchild : node.parameter with
  | none =>
    rw [hnone.mp hchild]
    exact represents_empty
  | some child => exact hsome child hchild

theorem Represents.getD_static (h : Represents Raw node items) (text : Bytes) :
    Represents Raw ((node.static.lookup text).getD .empty) (underStatic text items) := by
  obtain ⟨_, _, hnone, hsome, _, _⟩ := h
  cases hchild : node.static.lookup text with
  | none =>
    rw [(hnone text).mp hchild]
    exact represents_empty
  | some child => exact hsome text child hchild

/-- Appending an item that does not continue into a child only changes the
node's own lists. -/
theorem Represents.here {changed : PathNode} {item : Item} (h : Represents Raw node items)
    (own : Raw changed (items ++ [item])) (hstatic : changed.static = node.static)
    (hparameter : changed.parameter = node.parameter)
    (hunderStatic : ∀ text, underStatic text [item] = [])
    (hunderParameter : underParameter [item] = []) : Represents Raw changed (items ++ [item]) := by
  obtain ⟨_, keyed, hsn, hss, hpn, hps⟩ := h
  have hs : ∀ text, underStatic text (items ++ [item]) = underStatic text items := by
    intro text
    rw [underStatic, List.filterMap_append]
    exact (congrArg (underStatic text items ++ ·) (hunderStatic text)).trans (List.append_nil _)
  have hp : underParameter (items ++ [item]) = underParameter items := by
    rw [underParameter, List.filterMap_append]
    exact (congrArg (underParameter items ++ ·) hunderParameter).trans (List.append_nil _)
  refine Represents.intro own (hstatic ▸ keyed) ?_ ?_ ?_ ?_
  · intro text
    rw [hstatic, hs]
    exact hsn text
  · intro text child hchild
    rw [hs]
    exact hss text child (hstatic ▸ hchild)
  · rw [hparameter, hp]
    exact hpn
  · intro child hchild
    rw [hp]
    exact hps child (hparameter ▸ hchild)

/-- The node's own lists keep their items when the new one continues into a
child. -/
theorem Raw.descend {changed : PathNode} {item : Item} (h : Raw node items)
    (hterminal : changed.terminal = node.terminal) (hprefixes : changed.prefixes = node.prefixes)
    (hcatchAll : changed.catchAll = node.catchAll) (hupper : changed.upper = node.upper)
    (hitem : atTerminal [item] = []) (hitemPrefix : atPrefix [item] = [])
    (hitemCatchAll : atCatchAll [item] = []) : Raw changed (items ++ [item]) := by
  refine ⟨?_, ?_, ?_, hupper.trans h.upper⟩
  · rw [hterminal, h.terminal, atTerminal, atTerminal, List.filterMap_append]
    exact ((congrArg (atTerminal items ++ ·) hitem).trans (List.append_nil _)).symm
  · rw [hprefixes, h.prefixes, atPrefix, atPrefix, List.filterMap_append]
    exact ((congrArg (atPrefix items ++ ·) hitemPrefix).trans (List.append_nil _)).symm
  · rw [hcatchAll, h.catchAll, atCatchAll, atCatchAll, List.filterMap_append]
    exact ((congrArg (atCatchAll items ++ ·) hitemCatchAll).trans (List.append_nil _)).symm

theorem Represents.insertParameter {child : PathNode} {rest : List PathSegment}
    {value : Candidate} (h : Represents Raw node items) (name : Bytes)
    (hchild : Represents Raw child (underParameter items ++ [(rest, value)])) :
    Represents Raw
      (.mk node.static (some child) node.terminal node.prefixes node.catchAll node.upper)
      (items ++ [(.segmentParameter name :: rest, value)]) := by
  obtain ⟨own, keyed, hsn, hss, _, _⟩ := h
  have hadd : underParameter (items ++ [(.segmentParameter name :: rest, value)]) =
      underParameter items ++ [(rest, value)] := by
    rw [underParameter, List.filterMap_append]
    rfl
  have hkeep : ∀ text, underStatic text (items ++ [(.segmentParameter name :: rest, value)]) =
      underStatic text items := by
    intro text
    rw [underStatic, List.filterMap_append]
    exact List.append_nil _
  refine Represents.intro (own.descend rfl rfl rfl rfl rfl rfl rfl) keyed ?_ ?_ ?_ ?_
  · intro text
    rw [hkeep]
    exact hsn text
  · intro text other hother
    rw [hkeep]
    exact hss text other hother
  · rw [hadd]
    simp [PathNode.parameter]
  · intro other hother
    obtain rfl : child = other := Option.some.inj hother
    rw [hadd]
    exact hchild

/-- Adding an item below the static child for a text, which is created on first
use. -/
theorem Represents.insertStatic {text : Bytes} {rest : List PathSegment} {value : Candidate}
    (h : Represents Raw node items) (update : Option PathNode → PathNode)
    (hchild : Represents Raw (update (node.static.lookup text))
      (underStatic text items ++ [(rest, value)])) :
    Represents Raw
      (.mk (Assoc.upsert text update node.static) node.parameter node.terminal node.prefixes
        node.catchAll node.upper)
      (items ++ [(.segmentStatic text :: rest, value)]) := by
  obtain ⟨own, keyed, hsn, hss, hpn, hps⟩ := h
  have hkeep : underParameter (items ++ [(.segmentStatic text :: rest, value)]) =
      underParameter items := by
    rw [underParameter, List.filterMap_append]
    exact List.append_nil _
  have hadd : underStatic text (items ++ [(.segmentStatic text :: rest, value)]) =
      underStatic text items ++ [(rest, value)] := by
    simp [underStatic]
  have hother : ∀ other, other ≠ text →
      underStatic other (items ++ [(.segmentStatic text :: rest, value)]) =
        underStatic other items := by
    intro other hne
    simp [underStatic, hne.symm]
  refine Represents.intro (own.descend rfl rfl rfl rfl rfl rfl rfl) (Assoc.keyed_upsert keyed)
    ?_ ?_ ?_ ?_
  · intro other
    by_cases hne : other = text
    · subst hne
      rw [hadd, PathNode.static, Assoc.lookup_upsert_self]
      simp
    · rw [hother other hne, PathNode.static, Assoc.lookup_upsert_of_ne hne]
      exact hsn other
  · intro other child hlookup
    by_cases hne : other = text
    · subst hne
      rw [PathNode.static, Assoc.lookup_upsert_self] at hlookup
      cases hlookup
      rw [hadd]
      exact hchild
    · rw [PathNode.static, Assoc.lookup_upsert_of_ne hne] at hlookup
      rw [hother other hne]
      exact hss other child hlookup
  · rw [hkeep]
    exact hpn
  · intro child hlookup
    rw [hkeep]
    exact hps child hlookup

/-- Inserting a candidate along its segments adds one item. -/
theorem Represents.insertAlong {value : Candidate} {segments : List PathSegment}
    (h : Represents Raw node items) :
    Represents Raw (insertAlong value segments node) (items ++ [(segments, value)]) := by
  have own := h.own
  induction segments generalizing node items with
  | nil =>
    obtain ⟨static, parameter, terminal, prefixes, catchAll, upper⟩ := node
    refine h.here ⟨?_, ?_, ?_, own.upper⟩ rfl rfl (fun _ => rfl) rfl
    · rw [atTerminal, List.filterMap_append]
      exact congrArg (· ++ [value]) own.terminal
    · rw [atPrefix, List.filterMap_append]
      exact own.prefixes.trans (List.append_nil _).symm
    · rw [atCatchAll, List.filterMap_append]
      exact own.catchAll.trans (List.append_nil _).symm
  | cons segment rest ih =>
    cases segment with
    | segmentPrefix =>
      obtain ⟨static, parameter, terminal, prefixes, catchAll, upper⟩ := node
      refine h.here ⟨?_, ?_, ?_, own.upper⟩ rfl rfl (fun _ => rfl) rfl
      · rw [atTerminal, List.filterMap_append]
        exact own.terminal.trans (List.append_nil _).symm
      · rw [atPrefix, List.filterMap_append]
        exact congrArg (· ++ [value]) own.prefixes
      · rw [atCatchAll, List.filterMap_append]
        exact own.catchAll.trans (List.append_nil _).symm
    | segmentCatchAll name =>
      obtain ⟨static, parameter, terminal, prefixes, catchAll, upper⟩ := node
      refine h.here ⟨?_, ?_, ?_, own.upper⟩ rfl rfl (fun _ => rfl) rfl
      · rw [atTerminal, List.filterMap_append]
        exact own.terminal.trans (List.append_nil _).symm
      · rw [atPrefix, List.filterMap_append]
        exact own.prefixes.trans (List.append_nil _).symm
      · rw [atCatchAll, List.filterMap_append]
        exact congrArg (· ++ [value]) own.catchAll
    | segmentParameter name =>
      have hchild := h.getD_parameter
      have hinserted := h.insertParameter name (ih hchild hchild.own)
      obtain ⟨static, parameter, terminal, prefixes, catchAll, upper⟩ := node
      exact hinserted
    | segmentStatic text =>
      have hchild := h.getD_static text
      have hinserted := h.insertStatic
        (fun child => Router.insertAlong value rest (child.getD .empty))
        (ih hchild hchild.own)
      obtain ⟨static, parameter, terminal, prefixes, catchAll, upper⟩ := node
      exact hinserted

end GGateway.Router
