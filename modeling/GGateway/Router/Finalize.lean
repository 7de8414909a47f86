import GGateway.Router.Trie

/-!
# Finalized tries

`finalizeNode` of `internal/router/router.go`: candidate lists are sorted and
each node caches the greatest key below it.

Two things in the source are not determined by the program: the order in which
a map is iterated, and the result of `sort.Slice`, which is not stable.  Both
enter through `Choices`, of which only the documented contract is assumed.
-/

namespace GGateway.Router

open Text Library

/-- What the program leaves open: the result of `sort.Slice` on candidates, and
the iteration order of a map of children. -/
structure Choices where
  sortCandidates : List Candidate → List Candidate
  sortCandidates_perm : ∀ values, (sortCandidates values).Perm values
  sortCandidates_sorted : ∀ values, (sortCandidates values).Pairwise fun earlier later =>
    comparePrecedence later.key earlier.key ≠ .gt
  rangeStatic : List (Bytes × PathNode) → List (Bytes × PathNode)
  rangeStatic_perm : ∀ entries, (rangeStatic entries).Perm entries

/-- `includeUpper`. -/
def includeUpper (upper : Option PrecedenceKey) (key : PrecedenceKey) : Option PrecedenceKey :=
  match upper with
  | none => some key
  | some current => if comparePrecedence key current = .gt then some key else some current

/-- Include a finalized child's bound when it is valid. -/
def includeChild (upper : Option PrecedenceKey) (child : PathNode) : Option PrecedenceKey :=
  match child.upper with
  | none => upper
  | some key => includeUpper upper key

mutual

/-- `finalizeNode`.  Finalizing one child does not touch another, so all of
them are finalized before the map is iterated to collect their bounds. -/
def finalizeNode (choices : Choices) : PathNode → PathNode
  | .mk static parameter terminal prefixes catchAll upper =>
    let terminal := choices.sortCandidates terminal
    let prefixes := choices.sortCandidates prefixes
    let catchAll := choices.sortCandidates catchAll
    let own := (terminal ++ prefixes ++ catchAll).foldl
      (fun bound value => includeUpper bound value.key) upper
    let parameter := finalizeParameter choices parameter
    let static := finalizeStatic choices static
    let withParameter := parameter.elim own (includeChild own)
    .mk static parameter terminal prefixes catchAll
      ((choices.rangeStatic static).foldl (fun bound entry => includeChild bound entry.2)
        withParameter)

def finalizeParameter (choices : Choices) : Option PathNode → Option PathNode
  | none => none
  | some child => some (finalizeNode choices child)

def finalizeStatic (choices : Choices) : List (Bytes × PathNode) → List (Bytes × PathNode)
  | [] => []
  | (text, child) :: rest => (text, finalizeNode choices child) :: finalizeStatic choices rest

end

/-! ## Cached bounds -/

/-- The cached bound of a list of keys: absent for no keys, and their greatest
otherwise. -/
structure IsUpper (upper : Option PrecedenceKey) (keys : List PrecedenceKey) : Prop where
  none_iff : upper = none ↔ keys = []
  mem : ∀ key, upper = some key → key ∈ keys
  le : ∀ key, upper = some key → ∀ other ∈ keys, other ≤ key

theorem isUpper_nil : IsUpper none [] := by
  constructor <;> simp

variable {upper : Option PrecedenceKey} {keys : List PrecedenceKey} {items : List Item}
  {value : Candidate}

theorem IsUpper.of_mem_iff {left right : List PrecedenceKey} (h : IsUpper upper left)
    (hmem : ∀ key, key ∈ left ↔ key ∈ right) : IsUpper upper right := by
  refine ⟨?_, ?_, ?_⟩
  · rw [h.none_iff, List.eq_nil_iff_forall_not_mem, List.eq_nil_iff_forall_not_mem]
    exact forall_congr' fun key => not_congr (hmem key)
  · intro key hkey
    exact (hmem key).mp (h.mem key hkey)
  · intro key hkey other hother
    exact h.le key hkey other ((hmem other).mpr hother)

theorem IsUpper.unique {left right : Option PrecedenceKey} (hleft : IsUpper left keys)
    (hright : IsUpper right keys) : left = right := by
  cases hl : left with
  | none => exact (hright.none_iff.mpr (hleft.none_iff.mp hl)).symm
  | some key =>
    cases hr : right with
    | none =>
      rw [hleft.none_iff.mpr (hright.none_iff.mp hr)] at hl
      contradiction
    | some other =>
      have hle := hright.le other hr key (hleft.mem key hl)
      have hge := hleft.le key hl other (hright.mem other hr)
      rw [le_antisymm hle hge]

theorem IsUpper.includeUpper (h : IsUpper upper keys) (key : PrecedenceKey) :
    IsUpper (includeUpper upper key) (keys ++ [key]) := by
  cases hupper : upper with
  | none =>
    have hkeys := h.none_iff.mp hupper
    subst hkeys
    constructor <;> simp [Router.includeUpper]
  | some current =>
    have hmem := h.mem current hupper
    have hle := h.le current hupper
    simp only [Router.includeUpper, comparePrecedence_eq_gt]
    by_cases hlt : current < key
    · refine ⟨by simp [hlt], ?_, ?_⟩
      · intro chosen hchosen
        obtain rfl : key = chosen := by simpa [hlt] using hchosen
        simp
      · intro chosen hchosen other hother
        obtain rfl : key = chosen := by simpa [hlt] using hchosen
        rcases List.mem_append.mp hother with hold | hnew
        · exact (hle other hold).trans hlt.le
        · exact (List.mem_singleton.mp hnew).le
    · refine ⟨by simp [hlt], ?_, ?_⟩
      · intro chosen hchosen
        obtain rfl : current = chosen := by simpa [hlt] using hchosen
        exact List.mem_append_left _ hmem
      · intro chosen hchosen other hother
        obtain rfl : current = chosen := by simpa [hlt] using hchosen
        rcases List.mem_append.mp hother with hold | hnew
        · exact hle other hold
        · exact (List.mem_singleton.mp hnew) ▸ not_lt.mp hlt

theorem IsUpper.includeChild {below : List PrecedenceKey} {child : PathNode}
    (h : IsUpper upper keys) (hchild : IsUpper child.upper below) :
    IsUpper (includeChild upper child) (keys ++ below) := by
  cases hbound : child.upper with
  | none =>
    rw [hchild.none_iff.mp hbound, List.append_nil]
    simpa [Router.includeChild, hbound] using h
  | some key =>
    -- only the child's greatest key is included, and it stands for all of them
    have hsingle := h.includeUpper key
    have hkey := hchild.mem key hbound
    have hle := hchild.le key hbound
    simp only [Router.includeChild, hbound]
    refine ⟨?_, ?_, ?_⟩
    · rw [hsingle.none_iff]
      have hne : below ≠ [] := List.ne_nil_of_mem hkey
      simp [hne]
    · intro chosen hchosen
      rcases List.mem_append.mp (hsingle.mem chosen hchosen) with hold | hnew
      · exact List.mem_append_left _ hold
      · rw [List.mem_singleton.mp hnew]
        exact List.mem_append_right _ hkey
    · intro chosen hchosen other hother
      rcases List.mem_append.mp hother with hold | hnew
      · exact hsingle.le chosen hchosen other (List.mem_append_left _ hold)
      · exact (hle other hnew).trans (hsingle.le chosen hchosen key (by simp))

theorem IsUpper.includeParameter (h : IsUpper upper keys) (parameter : Option PathNode)
    (below : List PrecedenceKey) (hnone : parameter = none → below = [])
    (hsome : ∀ child, parameter = some child → IsUpper child.upper below) :
    IsUpper (parameter.elim upper (Router.includeChild upper)) (keys ++ below) := by
  cases parameter with
  | none =>
    rw [hnone rfl, List.append_nil]
    exact h
  | some child => exact h.includeChild (hsome child rfl)

theorem IsUpper.foldl_includeUpper (h : IsUpper upper keys) (values : List Candidate) :
    IsUpper (values.foldl (fun bound value => Router.includeUpper bound value.key) upper)
      (keys ++ values.map Candidate.key) := by
  induction values generalizing upper keys with
  | nil => simpa using h
  | cons value rest ih =>
    have hrest := ih (h.includeUpper value.key)
    simpa using hrest

/-- Including the bounds of all children, each of which bounds its own keys. -/
theorem IsUpper.foldl_includeChild (h : IsUpper upper keys) (below : Bytes → List PrecedenceKey)
    (entries : List (Bytes × PathNode))
    (hentries : ∀ entry ∈ entries, IsUpper entry.2.upper (below entry.1)) :
    IsUpper (entries.foldl (fun bound entry => Router.includeChild bound entry.2) upper)
      (keys ++ entries.flatMap fun entry => below entry.1) := by
  induction entries generalizing upper keys with
  | nil => simpa using h
  | cons entry rest ih =>
    have hfirst := h.includeChild (hentries entry List.mem_cons_self)
    have hrest := ih hfirst fun other hother => hentries other (List.mem_cons_of_mem _ hother)
    simpa using hrest

/-! ## Finalized tries -/

def itemKeys (items : List Item) : List PrecedenceKey :=
  items.map fun item => item.2.key

theorem mem_itemKeys {key : PrecedenceKey} :
    key ∈ itemKeys items ↔ ∃ segments value, (segments, value) ∈ items ∧ value.key = key := by
  simp [itemKeys]

theorem mem_atTerminal : value ∈ atTerminal items ↔ ([], value) ∈ items := by
  rw [atTerminal, List.mem_filterMap]
  constructor
  · rintro ⟨⟨segments, stored⟩, hitem, hvalue⟩
    cases segments with
    | nil =>
      cases hvalue
      exact hitem
    | cons segment rest => simp at hvalue
  · intro hitem
    exact ⟨_, hitem, rfl⟩

theorem mem_atPrefix :
    value ∈ atPrefix items ↔ ∃ rest, (.segmentPrefix :: rest, value) ∈ items := by
  rw [atPrefix, List.mem_filterMap]
  constructor
  · rintro ⟨⟨segments, stored⟩, hitem, hvalue⟩
    cases segments with
    | nil => simp at hvalue
    | cons segment rest =>
      cases segment with
      | segmentPrefix =>
        cases hvalue
        exact ⟨rest, hitem⟩
      | _ => simp at hvalue
  · rintro ⟨rest, hitem⟩
    exact ⟨_, hitem, rfl⟩

theorem mem_atCatchAll :
    value ∈ atCatchAll items ↔ ∃ name rest, (.segmentCatchAll name :: rest, value) ∈ items := by
  rw [atCatchAll, List.mem_filterMap]
  constructor
  · rintro ⟨⟨segments, stored⟩, hitem, hvalue⟩
    cases segments with
    | nil => simp at hvalue
    | cons segment rest =>
      cases segment with
      | segmentCatchAll name =>
        cases hvalue
        exact ⟨name, rest, hitem⟩
      | _ => simp at hvalue
  · rintro ⟨name, rest, hitem⟩
    exact ⟨_, hitem, rfl⟩

theorem mem_underParameter {rest : List PathSegment} :
    (rest, value) ∈ underParameter items ↔
      ∃ name, (.segmentParameter name :: rest, value) ∈ items := by
  rw [underParameter, List.mem_filterMap]
  constructor
  · rintro ⟨⟨segments, stored⟩, hitem, hvalue⟩
    cases segments with
    | nil => simp at hvalue
    | cons segment tail =>
      cases segment with
      | segmentParameter name =>
        cases hvalue
        exact ⟨name, hitem⟩
      | _ => simp at hvalue
  · rintro ⟨name, hitem⟩
    exact ⟨_, hitem, rfl⟩

theorem mem_underStatic {text : Bytes} {rest : List PathSegment} :
    (rest, value) ∈ underStatic text items ↔ (.segmentStatic text :: rest, value) ∈ items := by
  rw [underStatic, List.mem_filterMap]
  constructor
  · rintro ⟨⟨segments, stored⟩, hitem, hvalue⟩
    cases segments with
    | nil => simp at hvalue
    | cons segment tail =>
      cases segment with
      | segmentStatic literal =>
        by_cases hliteral : literal = text
        · subst hliteral
          obtain ⟨rfl, rfl⟩ : tail = rest ∧ stored = value := by simpa using hvalue
          exact hitem
        · simp [hliteral] at hvalue
      | _ => simp at hvalue
  · intro hitem
    exact ⟨_, hitem, by simp⟩

/-- Every item ends at the node or continues into one child. -/
theorem mem_itemKeys_iff (items : List Item) (key : PrecedenceKey) :
    key ∈ itemKeys items ↔
      (∃ value ∈ atTerminal items, value.key = key) ∨ (∃ value ∈ atPrefix items, value.key = key) ∨
      (∃ value ∈ atCatchAll items, value.key = key) ∨ key ∈ itemKeys (underParameter items) ∨
      ∃ text, key ∈ itemKeys (underStatic text items) := by
  simp only [mem_itemKeys, mem_atTerminal, mem_atPrefix, mem_atCatchAll, mem_underParameter,
    mem_underStatic]
  constructor
  · rintro ⟨segments, value, hitem, hkey⟩
    match segments with
    | [] => exact Or.inl ⟨value, hitem, hkey⟩
    | .segmentPrefix :: rest => exact Or.inr (Or.inl ⟨value, ⟨rest, hitem⟩, hkey⟩)
    | .segmentCatchAll name :: rest =>
      exact Or.inr (Or.inr (Or.inl ⟨value, ⟨name, rest, hitem⟩, hkey⟩))
    | .segmentParameter name :: rest =>
      exact Or.inr (Or.inr (Or.inr (Or.inl ⟨rest, value, ⟨name, hitem⟩, hkey⟩)))
    | .segmentStatic text :: rest =>
      exact Or.inr (Or.inr (Or.inr (Or.inr ⟨text, rest, value, hitem, hkey⟩)))
  · rintro (⟨value, hitem, hkey⟩ | ⟨value, ⟨rest, hitem⟩, hkey⟩ | ⟨value, ⟨name, rest, hitem⟩, hkey⟩ |
      ⟨rest, value, ⟨name, hitem⟩, hkey⟩ | ⟨text, rest, value, hitem, hkey⟩)
    · exact ⟨_, value, hitem, hkey⟩
    · exact ⟨_, value, hitem, hkey⟩
    · exact ⟨_, value, hitem, hkey⟩
    · exact ⟨_, value, hitem, hkey⟩
    · exact ⟨_, value, hitem, hkey⟩

/-- A candidate list after `sortCandidates`. -/
structure SortedPerm (values expected : List Candidate) : Prop where
  perm : values.Perm expected
  sorted : values.Pairwise fun earlier later => later.key ≤ earlier.key

theorem Choices.sortedPerm (choices : Choices) (values : List Candidate) :
    SortedPerm (choices.sortCandidates values) values := by
  refine ⟨choices.sortCandidates_perm values, ?_⟩
  exact (choices.sortCandidates_sorted values).imp fun h => (comparePrecedence_ne_gt _ _).mp h

/-- A node after `finalizeNode`. -/
structure Final (node : PathNode) (items : List Item) : Prop where
  terminal : SortedPerm node.terminal (atTerminal items)
  prefixes : SortedPerm node.prefixes (atPrefix items)
  catchAll : SortedPerm node.catchAll (atCatchAll items)
  upper : IsUpper node.upper (itemKeys items)

theorem finalizeStatic_lookup (choices : Choices) (entries : List (Bytes × PathNode))
    (text : Bytes) :
    (finalizeStatic choices entries).lookup text =
      (entries.lookup text).map (finalizeNode choices) := by
  induction entries with
  | nil => simp [finalizeStatic]
  | cons entry rest ih =>
    obtain ⟨stored, child⟩ := entry
    rw [finalizeStatic, List.lookup_cons, List.lookup_cons, ih]
    cases text == stored <;> rfl

theorem finalizeStatic_keyed (choices : Choices) {entries : List (Bytes × PathNode)}
    (keyed : Assoc.Keyed entries) : Assoc.Keyed (finalizeStatic choices entries) := by
  have hkeys : (finalizeStatic choices entries).map Prod.fst = entries.map Prod.fst := by
    clear keyed
    induction entries with
    | nil => simp [finalizeStatic]
    | cons entry rest ih =>
      obtain ⟨stored, child⟩ := entry
      rw [finalizeStatic, List.map_cons, List.map_cons, ih]
  rw [Assoc.Keyed, hkeys]
  exact keyed

theorem finalizeParameter_eq (choices : Choices) (parameter : Option PathNode) :
    finalizeParameter choices parameter = parameter.map (finalizeNode choices) := by
  cases parameter <;> simp [finalizeParameter]

theorem finalizeNode_static (choices : Choices) (node : PathNode) :
    (finalizeNode choices node).static = finalizeStatic choices node.static := by
  obtain ⟨static, parameter, terminal, prefixes, catchAll, upper⟩ := node
  rw [finalizeNode]
  rfl

theorem finalizeNode_parameter (choices : Choices) (node : PathNode) :
    (finalizeNode choices node).parameter = node.parameter.map (finalizeNode choices) := by
  obtain ⟨static, parameter, terminal, prefixes, catchAll, upper⟩ := node
  rw [finalizeNode, ← finalizeParameter_eq]
  rfl

/-- Finalizing a tree keeps its items, sorts the lists and caches the bounds,
whatever choices are made. -/
theorem Represents.finalizeNode (choices : Choices) {node : PathNode}
    (h : Represents Raw node items) : Represents Final (finalizeNode choices node) items := by
  induction h with
  | @intro node items own keyed hsn hss hpn hps ihs ihp =>
    obtain ⟨static, parameter, terminal, prefixes, catchAll, upper⟩ := node
    obtain ⟨rfl, rfl, rfl, rfl⟩ := own
    simp only [PathNode.static, PathNode.parameter] at keyed hsn hss hpn hps ihs ihp
    have hkeyed := finalizeStatic_keyed choices keyed
    have hlookup := finalizeStatic_lookup choices static
    -- the bound of the node's own candidates
    have hown := isUpper_nil.foldl_includeUpper
      (choices.sortCandidates (atTerminal items) ++ choices.sortCandidates (atPrefix items) ++
        choices.sortCandidates (atCatchAll items))
    -- with the parameter child
    have hparameter := hown.includeParameter (finalizeParameter choices parameter)
      (itemKeys (underParameter items))
      (by
        rw [finalizeParameter_eq, Option.map_eq_none_iff, hpn]
        intro hempty
        rw [hempty, itemKeys, List.map_nil])
      (by
        intro child hchild
        rw [finalizeParameter_eq] at hchild
        obtain ⟨original, horiginal, rfl⟩ := Option.map_eq_some_iff.mp hchild
        exact (ihp original horiginal).own.upper)
    -- with all static children, in the order of the map iteration
    have hstatic := hparameter.foldl_includeChild (fun text => itemKeys (underStatic text items))
      (choices.rangeStatic (finalizeStatic choices static)) (by
        rintro ⟨text, child⟩ hentry
        have hin := (choices.rangeStatic_perm _).mem_iff.mp hentry
        have hfound := (Assoc.lookup_eq_some_iff hkeyed).mpr hin
        rw [hlookup] at hfound
        obtain ⟨original, horiginal, rfl⟩ := Option.map_eq_some_iff.mp hfound
        exact (ihs text original horiginal).own.upper)
    refine Represents.intro ⟨choices.sortedPerm _, choices.sortedPerm _, choices.sortedPerm _, ?_⟩
      hkeyed ?_ ?_ ?_ ?_
    · refine hstatic.of_mem_iff fun key => ?_
      rw [mem_itemKeys_iff]
      have hchildren : key ∈ (choices.rangeStatic (finalizeStatic choices static)).flatMap
          (fun entry => itemKeys (underStatic entry.1 items)) ↔
          ∃ text, key ∈ itemKeys (underStatic text items) := by
        rw [List.mem_flatMap]
        constructor
        · rintro ⟨entry, _, hkey⟩
          exact ⟨entry.1, hkey⟩
        · rintro ⟨text, hkey⟩
          cases hchild : static.lookup text with
          | none =>
            rw [(hsn text).mp hchild] at hkey
            simp [itemKeys] at hkey
          | some child =>
            have hfound : (finalizeStatic choices static).lookup text =
                some (Router.finalizeNode choices child) := by
              rw [hlookup, hchild, Option.map_some]
            have hin := (Assoc.lookup_eq_some_iff hkeyed).mp hfound
            exact ⟨_, (choices.rangeStatic_perm _).mem_iff.mpr hin, hkey⟩
      simp only [List.mem_append, hchildren, List.nil_append, List.map_append, List.mem_map,
        (choices.sortCandidates_perm _).mem_iff, or_assoc]
    · intro text
      rw [finalizeNode_static, PathNode.static, hlookup, Option.map_eq_none_iff]
      exact hsn text
    · intro text child hchild
      rw [finalizeNode_static, PathNode.static, hlookup] at hchild
      obtain ⟨original, horiginal, rfl⟩ := Option.map_eq_some_iff.mp hchild
      exact ihs text original horiginal
    · rw [finalizeNode_parameter, PathNode.parameter, Option.map_eq_none_iff]
      exact hpn
    · intro child hchild
      rw [finalizeNode_parameter, PathNode.parameter] at hchild
      obtain ⟨original, horiginal, rfl⟩ := Option.map_eq_some_iff.mp hchild
      exact ihp original horiginal

end GGateway.Router
