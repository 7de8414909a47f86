import GGateway.Library.Incumbent
import GGateway.Router.Finalize

/-!
# The matcher

`consider` and `visit` of `internal/router/router.go`.  The matcher walks a trie
with one best-so-far candidate: a subtree whose cached bound does not exceed it
is pruned, a sorted candidate list is left at the first key that does not, and
of two children the one with the greater bound comes first.

The second half shows that all of this is a search with an incumbent along a
fixed list of candidates, the `trail`, which depends on the items of the trie
and on the path only.
-/

namespace GGateway.Router

open Text Library

/-- The fields `best`, `routeIndex` and `params` of `matcherState`, which are
meaningful once `found` is set. -/
structure Winner where
  best : PrecedenceKey
  routeIndex : Int
  params : List ParamSpan
  deriving DecidableEq

/-- `matcherState`; `found` carries the winner and `gathered` is `allow`. -/
abbrev MatcherState := Incumbent.State Winner Bytes

/-- `s.found && comparePrecedence(key, s.best) <= 0`. -/
def MatcherState.settled (state : MatcherState) (key : PrecedenceKey) : Bool :=
  state.found.any fun winner => comparePrecedence key winner.best != .gt

/-- The position after the segment that starts at `position`. -/
def nextPosition (path : Bytes) (position : Nat) : Nat :=
  if segmentEnd path position < path.length then segmentEnd path position + 1
  else path.length + 1

variable {path : Bytes} {position : Nat} {node : PathNode} {items : List Item}

theorem le_segmentEnd (h : position ≤ path.length) : position ≤ segmentEnd path position := by
  unfold segmentEnd
  split <;> omega

theorem segmentEnd_le (h : position ≤ path.length) : segmentEnd path position ≤ path.length := by
  unfold segmentEnd
  split
  · rename_i offset hoffset
    obtain ⟨hlt, _, _⟩ := mem_of_getElem?_indexByte hoffset
    rw [List.length_drop] at hlt
    omega
  · exact le_refl _

theorem lt_nextPosition (h : ¬ path.length < position) : position < nextPosition path position := by
  have hend := le_segmentEnd (not_lt.mp h)
  unfold nextPosition
  split <;> omega

/-- `compareNodeUpper` on two present nodes. -/
def compareNodeUpper (left right : PathNode) : Ordering :=
  match left.upper, right.upper with
  | none, _ => .lt
  | some _, none => .gt
  | some leftKey, some rightKey => comparePrecedence leftKey rightKey

/-- Both children exist and the parameter child has the greater bound. -/
def parameterFirst (staticChild parameterChild : Option PathNode) : Bool :=
  match staticChild, parameterChild with
  | some static, some parameter => compareNodeUpper parameter static == .gt
  | _, _ => false

/-- The static child for the segment at a position. -/
def PathNode.staticAt (node : PathNode) (path : Bytes) (position : Nat) : Option PathNode :=
  node.static.lookup (slice path position (segmentEnd path position))

/-- The parameter child, which takes no empty segment. -/
def PathNode.parameterAt (node : PathNode) (path : Bytes) (position : Nat) : Option PathNode :=
  if position < segmentEnd path position then node.parameter else none

section Matcher

variable (tables : UnicodeTables) (request : Request) (path : Bytes)

/-- `matcherState.consider`.  The list is sorted, so the loop breaks at the
first candidate that cannot improve on the incumbent. -/
def consider : List Candidate → MatcherState → Except QueryError MatcherState
  | [], state => .ok state
  | value :: rest, state =>
    if state.settled value.key then .ok state
    else
      match value.path.match path with
      | none => consider rest state
      | some params =>
        match evaluate tables request value.predicates with
        | .error cause => .error cause
        | .ok false => consider rest state
        | .ok true =>
          if value.methods.contains request.method then
            consider rest { state with found := some ⟨value.key, value.routeIndex, params⟩ }
          else
            consider rest { state with gathered := state.gathered ∪ value.methods.values }

/-- `matcherState.visit` on a present node. -/
def visit (node : PathNode) (position : Nat) (state : MatcherState) :
    Except QueryError MatcherState :=
  match node.upper with
  | none => .ok state
  | some upper =>
    if state.settled upper then .ok state
    else do
      let state ← consider tables request path node.terminal state
      let state ← consider tables request path node.prefixes state
      let state ← consider tables request path node.catchAll state
      if path.length < position then .ok state
      else
        let next := nextPosition path position
        let visitStatic := fun state : MatcherState =>
          match node.staticAt path position with
          | none => .ok state
          | some child => visit child next state
        let visitParameter := fun state : MatcherState =>
          match node.parameterAt path position with
          | none => .ok state
          | some child => visit child next state
        if parameterFirst (node.staticAt path position) (node.parameterAt path position) then
          visitParameter state >>= visitStatic
        else
          visitStatic state >>= visitParameter
termination_by path.length + 1 - position
decreasing_by
  all_goals
    have := lt_nextPosition ‹¬ path.length < position›
    omega

/-! ## The search behind the matcher -/

/-- What examining one candidate says. -/
def judge (value : Candidate) : Except QueryError (Incumbent.Verdict Winner Bytes) :=
  match value.path.match path with
  | none => .ok .pass
  | some params =>
    match evaluate tables request value.predicates with
    | .error cause => .error cause
    | .ok false => .ok .pass
    | .ok true =>
      if value.methods.contains request.method then
        .ok (.hit ⟨value.key, value.routeIndex, params⟩)
      else .ok (.miss value.methods.values)

/-- The search of the library at the router's own types. -/
abbrev search (state : MatcherState) (values : List Candidate) :
    Except QueryError MatcherState :=
  Incumbent.run Winner.best Candidate.key (judge tables request path) state values

/-- The candidates of a subtree in the order in which the matcher comes to
them, if nothing is pruned. -/
def trail (node : PathNode) (position : Nat) : List Candidate :=
  node.terminal ++ node.prefixes ++ node.catchAll ++
    if path.length < position then []
    else
      let next := nextPosition path position
      let staticTrail :=
        match node.staticAt path position with
        | none => []
        | some child => trail child next
      let parameterTrail :=
        match node.parameterAt path position with
        | none => []
        | some child => trail child next
      if parameterFirst (node.staticAt path position) (node.parameterAt path position) then
        parameterTrail ++ staticTrail
      else staticTrail ++ parameterTrail
termination_by path.length + 1 - position
decreasing_by
  all_goals
    have := lt_nextPosition ‹¬ path.length < position›
    omega

variable {tables request path}

/-- A hit carries the key of its candidate. -/
theorem best_of_judge_hit {value : Candidate} {winner : Winner}
    (h : judge tables request path value = .ok (.hit winner)) : winner.best = value.key := by
  unfold judge at h
  split at h
  · simp at h
  split at h
  · simp at h
  · simp at h
  · split at h
    · have hwinner := Except.ok.inj h
      simp only [Incumbent.Verdict.hit.injEq] at hwinner
      rw [← hwinner]
    · simp at h

theorem settled_eq_beats (state : MatcherState) (key : PrecedenceKey) :
    state.settled key = state.beats Winner.best key := by
  unfold MatcherState.settled Incumbent.State.beats
  congr 1
  funext winner
  rw [Bool.eq_iff_iff, bne_iff_ne, comparePrecedence_ne_gt, decide_eq_true_eq]

/-- On a sorted list the early break skips only candidates that the search
would skip one by one. -/
theorem consider_eq_search {values : List Candidate}
    (sorted : values.Pairwise fun earlier later => later.key ≤ earlier.key)
    (state : MatcherState) :
    consider tables request path values state = search tables request path state values := by
  induction values generalizing state with
  | nil => rfl
  | cons value rest ih =>
    obtain ⟨hbelow, hrest⟩ := List.pairwise_cons.mp sorted
    simp only [consider, search, Incumbent.run, Incumbent.step, settled_eq_beats]
    by_cases hbeats : state.beats Winner.best value.key = true
    · have hskip : search tables request path state rest = .ok state :=
        Incumbent.run_of_beats fun other hother =>
          Incumbent.beats_of_le (hbelow other hother) hbeats
      simp only [hbeats, if_true]
      exact hskip.symm
    · simp only [hbeats, Bool.false_eq_true, if_false, judge]
      cases value.path.match path with
      | none => exact ih hrest state
      | some params =>
        cases evaluate tables request value.predicates with
        | error cause => rfl
        | ok matched =>
          cases matched with
          | false => exact ih hrest state
          | true =>
            by_cases hmethod : value.methods.contains request.method = true
            · simp only [hmethod, if_true]
              exact ih hrest _
            · simp only [hmethod, Bool.false_eq_true, if_false]
              exact ih hrest _

/-! ## The trail -/

/-- The matcher comes to the node where a candidate with these segments is
stored. -/
def Reaches (path : Bytes) : List PathSegment → Nat → Prop
  | [], _ => True
  | .segmentPrefix :: _, _ => True
  | .segmentCatchAll _ :: _, _ => True
  | .segmentStatic text :: rest, position =>
    position ≤ path.length ∧ slice path position (segmentEnd path position) = text ∧
      Reaches path rest (nextPosition path position)
  | .segmentParameter _ :: rest, position =>
    position ≤ path.length ∧ position < segmentEnd path position ∧
      Reaches path rest (nextPosition path position)

/-- The trail below a present child, empty without one. -/
def childTrail (path : Bytes) (child : Option PathNode) (position : Nat) : List Candidate :=
  match child with
  | none => []
  | some node => trail path node position

theorem trail_of_lt (h : path.length < position) :
    trail path node position = node.terminal ++ node.prefixes ++ node.catchAll := by
  rw [trail, if_pos h, List.append_nil]

theorem trail_of_le (h : position ≤ path.length) :
    trail path node position = node.terminal ++ node.prefixes ++ node.catchAll ++
      if parameterFirst (node.staticAt path position) (node.parameterAt path position) then
        childTrail path (node.parameterAt path position) (nextPosition path position) ++
          childTrail path (node.staticAt path position) (nextPosition path position)
      else
        childTrail path (node.staticAt path position) (nextPosition path position) ++
          childTrail path (node.parameterAt path position) (nextPosition path position) := by
  rw [trail, if_neg h.not_gt]
  rfl

theorem mem_trail_of_le (h : position ≤ path.length) (value : Candidate) :
    value ∈ trail path node position ↔
      value ∈ node.terminal ∨ value ∈ node.prefixes ∨ value ∈ node.catchAll ∨
      value ∈ childTrail path (node.staticAt path position) (nextPosition path position) ∨
      value ∈ childTrail path (node.parameterAt path position) (nextPosition path position) := by
  rw [trail_of_le h]
  split
  · simp only [List.mem_append, or_assoc]
    tauto
  · simp only [List.mem_append, or_assoc]

/-- The trail holds exactly the items whose segments lead along the path. -/
theorem mem_trail_iff (h : Represents Final node items) (position : Nat) (value : Candidate) :
    value ∈ trail path node position ↔
      ∃ segments, (segments, value) ∈ items ∧ Reaches path segments position := by
  induction h generalizing position with
  | @intro node items own keyed hsn hss hpn hps ihs ihp =>
    have hterminal : value ∈ node.terminal ↔ ([], value) ∈ items := by
      rw [own.terminal.perm.mem_iff, mem_atTerminal]
    have hprefixes : value ∈ node.prefixes ↔ ∃ rest, (.segmentPrefix :: rest, value) ∈ items := by
      rw [own.prefixes.perm.mem_iff, mem_atPrefix]
    have hcatchAll : value ∈ node.catchAll ↔
        ∃ name rest, (.segmentCatchAll name :: rest, value) ∈ items := by
      rw [own.catchAll.perm.mem_iff, mem_atCatchAll]
    by_cases hposition : position ≤ path.length
    · -- inside the path the two children take the items that continue
      have hstatic : value ∈ childTrail path (node.staticAt path position)
            (nextPosition path position) ↔
          ∃ rest, (.segmentStatic (slice path position (segmentEnd path position)) :: rest,
            value) ∈ items ∧ Reaches path rest (nextPosition path position) := by
        unfold PathNode.staticAt
        cases hchild : node.static.lookup (slice path position (segmentEnd path position)) with
        | none =>
          have hnone := (hsn _).mp hchild
          simp only [childTrail, List.not_mem_nil, false_iff, not_exists, not_and]
          intro rest hitem
          rw [← mem_underStatic, hnone] at hitem
          simp at hitem
        | some child =>
          simp only [childTrail, ihs _ child hchild, mem_underStatic]
      have hparameter : value ∈ childTrail path (node.parameterAt path position)
            (nextPosition path position) ↔
          ∃ name rest, (.segmentParameter name :: rest, value) ∈ items ∧
            position < segmentEnd path position ∧
            Reaches path rest (nextPosition path position) := by
        unfold PathNode.parameterAt
        by_cases hend : position < segmentEnd path position
        · rw [if_pos hend]
          cases hchild : node.parameter with
          | none =>
            have hnone := hpn.mp hchild
            simp only [childTrail, List.not_mem_nil, false_iff, not_exists, not_and]
            intro name rest hitem
            have hunder := mem_underParameter.mpr ⟨name, hitem⟩
            rw [hnone] at hunder
            simp at hunder
          | some child =>
            simp only [childTrail, ihp child hchild, mem_underParameter]
            constructor
            · rintro ⟨rest, ⟨name, hitem⟩, hreaches⟩
              exact ⟨name, rest, hitem, hend, hreaches⟩
            · rintro ⟨name, rest, hitem, _, hreaches⟩
              exact ⟨rest, ⟨name, hitem⟩, hreaches⟩
        · rw [if_neg hend]
          simp only [childTrail, List.not_mem_nil, false_iff, not_exists, not_and]
          intro name rest _ hlt
          exact absurd hlt hend
      rw [mem_trail_of_le hposition, hterminal, hprefixes, hcatchAll, hstatic, hparameter]
      constructor
      · rintro (hitem | ⟨rest, hitem⟩ | ⟨name, rest, hitem⟩ | ⟨rest, hitem, hreaches⟩ |
          ⟨name, rest, hitem, hlt, hreaches⟩)
        · exact ⟨_, hitem, trivial⟩
        · exact ⟨_, hitem, trivial⟩
        · exact ⟨_, hitem, trivial⟩
        · exact ⟨_, hitem, hposition, rfl, hreaches⟩
        · exact ⟨_, hitem, hposition, hlt, hreaches⟩
      · rintro ⟨segments, hitem, hreaches⟩
        match segments with
        | [] => exact Or.inl hitem
        | .segmentPrefix :: rest => exact Or.inr (Or.inl ⟨rest, hitem⟩)
        | .segmentCatchAll name :: rest => exact Or.inr (Or.inr (Or.inl ⟨name, rest, hitem⟩))
        | .segmentStatic text :: rest =>
          obtain ⟨_, rfl, hrest⟩ := hreaches
          exact Or.inr (Or.inr (Or.inr (Or.inl ⟨rest, hitem, hrest⟩)))
        | .segmentParameter name :: rest =>
          obtain ⟨_, hlt, hrest⟩ := hreaches
          exact Or.inr (Or.inr (Or.inr (Or.inr ⟨name, rest, hitem, hlt, hrest⟩)))
    · -- behind the path only the node's own lists are left
      rw [trail_of_lt (not_le.mp hposition), List.mem_append, List.mem_append, hterminal,
        hprefixes, hcatchAll]
      constructor
      · rintro ((hitem | ⟨rest, hitem⟩) | ⟨name, rest, hitem⟩)
        · exact ⟨_, hitem, trivial⟩
        · exact ⟨_, hitem, trivial⟩
        · exact ⟨_, hitem, trivial⟩
      · rintro ⟨segments, hitem, hreaches⟩
        match segments with
        | [] => exact Or.inl (Or.inl hitem)
        | .segmentPrefix :: rest => exact Or.inl (Or.inr ⟨rest, hitem⟩)
        | .segmentCatchAll name :: rest => exact Or.inr ⟨name, rest, hitem⟩
        | .segmentStatic text :: rest => exact absurd hreaches.1 hposition
        | .segmentParameter name :: rest => exact absurd hreaches.1 hposition

/-- The cached bound of a node bounds its whole trail. -/
theorem le_upper_of_mem_trail (h : Represents Final node items) {value : Candidate}
    (hvalue : value ∈ trail path node position) :
    ∃ upper, node.upper = some upper ∧ value.key ≤ upper := by
  obtain ⟨segments, hitem, _⟩ := (mem_trail_iff h position value).mp hvalue
  have hkey : value.key ∈ itemKeys items := mem_itemKeys.mpr ⟨segments, value, hitem, rfl⟩
  have hbound := h.own.upper
  cases hupper : node.upper with
  | none =>
    rw [hbound.none_iff.mp hupper] at hkey
    simp at hkey
  | some upper => exact ⟨upper, rfl, hbound.le upper hupper _ hkey⟩

/-- Pruning by cached bounds, breaking out of sorted lists and visiting the
children in either order make `visit` neither more nor less than the search
along the trail. -/
theorem visit_eq_search (h : Represents Final node items) (position : Nat) (state : MatcherState) :
    visit tables request path node position state =
      search tables request path state (trail path node position) := by
  induction h generalizing position state with
  | @intro node items own keyed hsn hss hpn hps ihs ihp =>
    have hnode : Represents Final node items := .intro own keyed hsn hss hpn hps
    rw [visit]
    cases hupper : node.upper with
    | none =>
      have hempty : trail path node position = [] := by
        rw [List.eq_nil_iff_forall_not_mem]
        intro value hvalue
        obtain ⟨upper, hsome, _⟩ := le_upper_of_mem_trail hnode hvalue
        rw [hupper] at hsome
        contradiction
      rw [hempty]
      rfl
    | some upper =>
      simp only [settled_eq_beats]
      by_cases hbeats : state.beats Winner.best upper = true
      · rw [if_pos hbeats]
        refine (Incumbent.run_of_beats fun value hvalue => ?_).symm
        obtain ⟨bound, hsome, hle⟩ := le_upper_of_mem_trail hnode hvalue
        obtain rfl : upper = bound := Option.some.inj (hupper.symm.trans hsome)
        exact Incumbent.beats_of_le hle hbeats
      · rw [if_neg hbeats]
        simp only [consider_eq_search own.terminal.sorted,
          consider_eq_search own.prefixes.sorted, consider_eq_search own.catchAll.sorted]
        by_cases hposition : position ≤ path.length
        · have hstatic : ∀ next : MatcherState,
              (match node.staticAt path position with
                | none => Except.ok next
                | some child => visit tables request path child (nextPosition path position) next) =
              search tables request path next
                (childTrail path (node.staticAt path position)
                  (nextPosition path position)) := by
            intro next
            cases hchild : node.staticAt path position with
            | none => rfl
            | some child => exact ihs _ child hchild _ next
          have hparameter : ∀ next : MatcherState,
              (match node.parameterAt path position with
                | none => Except.ok next
                | some child => visit tables request path child (nextPosition path position) next) =
              search tables request path next
                (childTrail path (node.parameterAt path position)
                  (nextPosition path position)) := by
            intro next
            cases hchild : node.parameterAt path position with
            | none => rfl
            | some child =>
              have hpresent : node.parameter = some child := by
                unfold PathNode.parameterAt at hchild
                split at hchild
                · exact hchild
                · contradiction
              exact ihp child hpresent _ next
          simp only [hposition.not_gt, if_false, hstatic, hparameter, trail_of_le hposition,
            search, Incumbent.run_append, bind_assoc]
          split <;> simp only [Incumbent.run_append]
        · have hbehind := not_le.mp hposition
          simp only [hbehind, if_true, trail_of_lt hbehind, search, Incumbent.run_append,
            bind_assoc]
          congr 1
          funext next
          congr 1
          funext last
          cases Incumbent.run Winner.best Candidate.key (judge tables request path) last
            node.catchAll <;> rfl

/-! ## Independence of the trie's shape -/

/-- A sorted list of candidates with distinct keys is determined by its
members. -/
theorem SortedPerm.unique {left right expected expected' : List Candidate}
    (hleft : SortedPerm left expected) (hright : SortedPerm right expected')
    (hperm : expected.Perm expected') (hdistinct : (expected.map Candidate.key).Nodup) :
    left = right := by
  have hall : left.Perm right := (hleft.perm.trans hperm).trans hright.perm.symm
  have hinj : ∀ first ∈ left, ∀ second ∈ left, first.key = second.key → first = second := by
    intro first hfirst second hsecond hkey
    exact List.inj_on_of_nodup_map hdistinct (hleft.perm.mem_iff.mp hfirst)
      (hleft.perm.mem_iff.mp hsecond) hkey
  refine hall.eq_of_pairwise ?_ hleft.sorted hright.sorted
  intro first second hfirst hsecond hge hle
  exact hinj first hfirst second (hall.mem_iff.mpr hsecond) (le_antisymm hle hge)

theorem nodup_slots (h : (itemKeys items).Nodup) :
    ((atTerminal items).map Candidate.key).Nodup ∧ ((atPrefix items).map Candidate.key).Nodup ∧
      ((atCatchAll items).map Candidate.key).Nodup := by
  refine ⟨?_, ?_, ?_⟩
  all_goals
    refine h.sublist (map_filterMap_sublist ?_ items)
    rintro ⟨segments, stored⟩ value hvalue
    split at hvalue
    · rw [Option.some.inj hvalue]
    · contradiction

theorem nodup_underParameter (h : (itemKeys items).Nodup) :
    (itemKeys (underParameter items)).Nodup := by
  refine h.sublist (map_filterMap_sublist ?_ items)
  rintro ⟨segments, stored⟩ kept hkept
  split at hkept
  · rw [← Option.some.inj hkept]
  · contradiction

theorem nodup_underStatic (h : (itemKeys items).Nodup) (text : Bytes) :
    (itemKeys (underStatic text items)).Nodup := by
  refine h.sublist (map_filterMap_sublist ?_ items)
  rintro ⟨segments, stored⟩ kept hkept
  split at hkept
  · split at hkept
    · rw [← Option.some.inj hkept]
    · contradiction
  · contradiction

theorem Represents.upper_eq {left right : PathNode} {items' : List Item}
    (hleft : Represents Final left items) (hright : Represents Final right items')
    (hperm : items.Perm items') : left.upper = right.upper := by
  have hkeys : ∀ key, key ∈ itemKeys items ↔ key ∈ itemKeys items' :=
    fun key => (hperm.map _).mem_iff
  exact (hleft.own.upper.of_mem_iff hkeys).unique hright.own.upper

/-- Corresponding children of two tries with the same items: both are absent, or
both are present with one cached bound and one trail. -/
structure SameChild (path : Bytes) (left right : Option PathNode) (position : Nat) : Prop where
  upper : left.map PathNode.upper = right.map PathNode.upper
  trail : childTrail path left position = childTrail path right position

theorem parameterFirst_eq {static static' parameter parameter' : Option PathNode}
    (hstatic : SameChild path static static' position)
    (hparameter : SameChild path parameter parameter' position) :
    parameterFirst static parameter = parameterFirst static' parameter' := by
  have hs := hstatic.upper
  have hp := hparameter.upper
  cases static <;> cases static' <;> cases parameter <;> cases parameter' <;>
    simp_all [parameterFirst, compareNodeUpper]

/-- The trail is a function of the items: neither the order of insertion, nor
map iteration, nor the unstable sort leaves a mark on it. -/
theorem trail_eq {left right : PathNode} {items' : List Item}
    (hleft : Represents Final left items) (hright : Represents Final right items')
    (hperm : items.Perm items') (hdistinct : (itemKeys items).Nodup) (position : Nat) :
    trail path left position = trail path right position := by
  induction hleft generalizing right items' position with
  | @intro node items own keyed hsn hss hpn hps ihs ihp =>
    obtain ⟨own', keyed', hsn', hss', hpn', hps'⟩ := hright
    have hterminal := own.terminal.unique own'.terminal (hperm.filterMap _)
      (nodup_slots hdistinct).1
    have hprefixes := own.prefixes.unique own'.prefixes (hperm.filterMap _)
      (nodup_slots hdistinct).2.1
    have hcatchAll := own.catchAll.unique own'.catchAll (hperm.filterMap _)
      (nodup_slots hdistinct).2.2
    by_cases hposition : position ≤ path.length
    · have hunder : ∀ text, (underStatic text items).Perm (underStatic text items') :=
        fun text => hperm.filterMap _
      have hparameterPerm : (underParameter items).Perm (underParameter items') :=
        hperm.filterMap _
      have hstatic : SameChild path (node.staticAt path position)
          (right.staticAt path position) (nextPosition path position) := by
        unfold PathNode.staticAt
        generalize slice path position (segmentEnd path position) = text
        cases hchild : node.static.lookup text with
        | none =>
          have hempty : underStatic text items' = [] :=
            List.nil_perm.mp (by simpa only [(hsn text).mp hchild] using hunder text)
          rw [(hsn' text).mpr hempty]
          exact ⟨rfl, rfl⟩
        | some child =>
          cases hchild' : right.static.lookup text with
          | none =>
            have hempty : underStatic text items = [] :=
              List.perm_nil.mp (by simpa only [(hsn' text).mp hchild'] using hunder text)
            rw [(hsn text).mpr hempty] at hchild
            contradiction
          | some child' =>
            have hrep' := hss' text child' hchild'
            refine ⟨?_, ?_⟩
            · rw [Option.map_some, Option.map_some,
                (hss text child hchild).upper_eq hrep' (hunder text)]
            · exact ihs text child hchild hrep' (hunder text)
                (nodup_underStatic hdistinct text) _
      have hparameter : SameChild path (node.parameterAt path position)
          (right.parameterAt path position) (nextPosition path position) := by
        unfold PathNode.parameterAt
        split
        · cases hchild : node.parameter with
          | none =>
            have hempty : underParameter items' = [] :=
              List.nil_perm.mp (by simpa only [hpn.mp hchild] using hparameterPerm)
            rw [hpn'.mpr hempty]
            exact ⟨rfl, rfl⟩
          | some child =>
            cases hchild' : right.parameter with
            | none =>
              have hempty : underParameter items = [] :=
                List.perm_nil.mp (by simpa only [hpn'.mp hchild'] using hparameterPerm)
              rw [hpn.mpr hempty] at hchild
              contradiction
            | some child' =>
              have hrep' := hps' child' hchild'
              refine ⟨?_, ?_⟩
              · rw [Option.map_some, Option.map_some,
                  (hps child hchild).upper_eq hrep' hparameterPerm]
              · exact ihp child hchild hrep' hparameterPerm
                  (nodup_underParameter hdistinct) _
        · exact ⟨rfl, rfl⟩
      rw [trail_of_le hposition, trail_of_le hposition, hterminal, hprefixes, hcatchAll,
        parameterFirst_eq hstatic hparameter, hstatic.trail, hparameter.trail]
    · have hbehind := not_le.mp hposition
      rw [trail_of_lt hbehind, trail_of_lt hbehind, hterminal, hprefixes, hcatchAll]

/-! ## Matching candidates are reached -/

theorem reaches_of_matchSegments {segments : List PathSegment} {params result : List ParamSpan}
    (h : matchSegments path segments position params = some result) :
    Reaches path segments position := by
  induction segments generalizing position params with
  | nil => trivial
  | cons segment rest ih =>
    rw [matchSegments] at h
    by_cases hposition : path.length < position
    · simp [matchSegment, hposition] at h
    -- a consumed segment is the last one or is followed by a slash
    have hrest : ∀ collected,
        (if rest.isEmpty then
            if segmentEnd path position = path.length then some collected else none
          else if segmentEnd path position = path.length then none
          else matchSegments path rest (segmentEnd path position + 1) collected) =
            some result → Reaches path rest (nextPosition path position) := by
      intro collected hcollected
      split at hcollected
      · rename_i hempty
        rw [List.isEmpty_iff.mp hempty]
        trivial
      split at hcollected
      · contradiction
      rename_i hend
      have hle := segmentEnd_le (not_lt.mp hposition)
      rw [nextPosition, if_pos (by omega)]
      exact ih hcollected
    cases segment with
    | segmentPrefix => trivial
    | segmentCatchAll name => trivial
    | segmentStatic text =>
      by_cases htext : slice path position (segmentEnd path position) = text
      · simp only [matchSegment, hposition, if_false, htext, if_true] at h
        exact ⟨not_lt.mp hposition, htext, hrest _ h⟩
      · simp [matchSegment, hposition, htext] at h
    | segmentParameter name =>
      by_cases hend : segmentEnd path position = position
      · simp [matchSegment, hposition, hend] at h
      simp only [matchSegment, hposition, if_false, hend] at h
      have hge := le_segmentEnd (not_lt.mp hposition)
      exact ⟨not_lt.mp hposition, by omega, hrest _ h⟩

/-- Whatever pattern matches the path is on the trail of its trie. -/
theorem reaches_of_match {pattern : CompiledPathPattern} {params : List ParamSpan}
    (h : pattern.match path = some params) : Reaches path pattern.segments 1 := by
  unfold CompiledPathPattern.match at h
  split at h
  · contradiction
  split at h
  · rename_i hempty
    rw [List.isEmpty_iff.mp hempty]
    trivial
  · exact reaches_of_matchSegments h

end Matcher

end GGateway.Router
