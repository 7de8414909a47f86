import GGateway.Router.Search
import GGateway.Text.Spelling

/-!
# Captures are a parse of the path

The matcher of `internal/router/pattern.go` walks over the request path with a
position and hands out byte spans.  Here the spans are read as values: a path
matches exactly when it is the pattern with a value in the place of each
parameter.

* `source_of_compilePathPattern` prints a compiled pattern back;
* `Parses` is the judgment the loop computes, without positions;
* `matchSegments_iff` holds the loop to it; a parse is a substitution
  (`Parses.substitution`, `parses_of_substitution`);
* `matchChecked_eq` says that the loop, with every slice checked against the
  bounds of the path, never fails.
-/

namespace GGateway.Router

open Text

/-! ## Patterns and substitutions -/

namespace PathSegment

/-- The text of a segment in a pattern. -/
def source : PathSegment → Bytes
  | segmentStatic text => text
  | segmentParameter name => [123] ++ name ++ [125]
  | segmentPrefix => [42]
  | segmentCatchAll name => [123, 42] ++ name ++ [125]

/-- The name under which a segment captures. -/
def captures : PathSegment → Option Bytes
  | segmentParameter name | segmentCatchAll name => some name
  | segmentStatic _ | segmentPrefix => none

/-- The segment ends at the next slash. -/
def Single : PathSegment → Prop
  | segmentStatic text => slash ∉ text
  | segmentParameter _ => True
  | segmentPrefix | segmentCatchAll _ => False

end PathSegment

/-- Only the last segment may take more than one segment of the path, and the
texts of the others have no slash. -/
def WellFormed (segments : List PathSegment) : Prop :=
  (∀ text, .segmentStatic text ∈ segments → slash ∉ text) ∧
    ∀ segment ∈ segments.dropLast, segment.Single

/-- The values that may stand for the captures, in order: anything for a
catch-all, a segment that is not empty for a parameter. -/
def Suits : List PathSegment → List Bytes → Prop
  | [], values => values = []
  | .segmentStatic _ :: rest, values | .segmentPrefix :: rest, values => Suits rest values
  | .segmentParameter _ :: rest, value :: values =>
    (value ≠ [] ∧ slash ∉ value) ∧ Suits rest values
  | .segmentCatchAll _ :: rest, _ :: values => Suits rest values
  | .segmentParameter _ :: _, [] | .segmentCatchAll _ :: _, [] => False

/-- The segments with the values in the place of the captures; nothing stands
for an asterisk. -/
def segmentTexts : List PathSegment → List Bytes → List Bytes
  | [], _ => []
  | .segmentStatic text :: rest, values => text :: segmentTexts rest values
  | .segmentPrefix :: rest, values => [] :: segmentTexts rest values
  | .segmentParameter _ :: rest, values | .segmentCatchAll _ :: rest, values =>
    values.headD [] :: segmentTexts rest values.tail

/-- The path that a pattern describes when values are substituted. -/
def substitute (segments : List PathSegment) (values : List Bytes) : Bytes :=
  slash :: join (segmentTexts segments values) [slash]

/-- The pattern ends in an asterisk. -/
def EndsOpen (segments : List PathSegment) : Prop :=
  segments.getLast? = some .segmentPrefix

instance (segments : List PathSegment) : Decidable (EndsOpen segments) :=
  inferInstanceAs (Decidable (_ = _))

/-! ## Parses -/

/-- A text read by the segments, with the values it gives to the captures. -/
inductive Parses : List PathSegment → Bytes → List Bytes → Prop
  | staticLast {text : Bytes} (plain : slash ∉ text) : Parses [.segmentStatic text] text []
  | parameterLast {name value : Bytes} (nonempty : value ≠ []) (plain : slash ∉ value) :
      Parses [.segmentParameter name] value [value]
  | prefixLast {rest : Bytes} : Parses [.segmentPrefix] rest []
  | catchAllLast {name rest : Bytes} : Parses [.segmentCatchAll name] rest [rest]
  | static {text rest : Bytes} {segments : List PathSegment} {values : List Bytes}
      (plain : slash ∉ text) (more : Parses segments rest values) :
      Parses (.segmentStatic text :: segments) (text ++ slash :: rest) values
  | parameter {name value rest : Bytes} {segments : List PathSegment} {values : List Bytes}
      (nonempty : value ≠ []) (plain : slash ∉ value) (more : Parses segments rest values) :
      Parses (.segmentParameter name :: segments) (value ++ slash :: rest) (value :: values)

/-- The spans of the values when the segments start at a position. -/
def spansAt : Nat → List PathSegment → List Bytes → List ParamSpan
  | _, [], _ => []
  | position, .segmentStatic text :: rest, values =>
    spansAt (position + text.length + 1) rest values
  | position, .segmentPrefix :: rest, values => spansAt (position + 1) rest values
  | position, .segmentParameter name :: rest, values
  | position, .segmentCatchAll name :: rest, values =>
    ⟨name, position, position + (values.headD []).length⟩ ::
      spansAt (position + (values.headD []).length + 1) rest values.tail

variable {segments : List PathSegment} {text path value : Bytes} {values : List Bytes}
  {segment : PathSegment} {position : Nat}

theorem Parses.ne_nil (h : Parses segments text values) : segments ≠ [] := by
  cases h <;> exact List.cons_ne_nil _ _

theorem segmentTexts_ne_nil (h : segments ≠ []) (values : List Bytes) :
    segmentTexts segments values ≠ [] := by
  cases segments with
  | nil => exact absurd rfl h
  | cons segment rest => cases segment <;> exact List.cons_ne_nil _ _

theorem endsOpen_cons (h : segments ≠ []) : EndsOpen (segment :: segments) ↔ EndsOpen segments := by
  obtain ⟨second, others, rfl⟩ := List.exists_cons_of_ne_nil h
  rw [EndsOpen, EndsOpen, List.getLast?_cons_cons]

/-- A parse is a substitution, followed by anything where an asterisk ends the
pattern. -/
theorem Parses.substitution (h : Parses segments text values) :
    Suits segments values ∧ ∃ rest, text = join (segmentTexts segments values) [slash] ++ rest ∧
      (rest ≠ [] → EndsOpen segments) := by
  induction h with
  | staticLast plain => exact ⟨rfl, [], by simp [segmentTexts, join_singleton], absurd rfl⟩
  | parameterLast nonempty plain =>
    exact ⟨⟨⟨nonempty, plain⟩, rfl⟩, [], by simp [segmentTexts, join_singleton], absurd rfl⟩
  | @prefixLast rest => exact ⟨rfl, rest, by simp [segmentTexts, join_singleton], fun _ => rfl⟩
  | catchAllLast => exact ⟨rfl, [], by simp [segmentTexts, join_singleton], absurd rfl⟩
  | static plain more ih =>
    obtain ⟨hsuits, rest, hrest, hopen⟩ := ih
    refine ⟨hsuits, rest, ?_, fun hne => (endsOpen_cons more.ne_nil).mpr (hopen hne)⟩
    rw [segmentTexts, join_cons (segmentTexts_ne_nil more.ne_nil _), hrest]
    simp
  | parameter nonempty plain more ih =>
    obtain ⟨hsuits, rest, hrest, hopen⟩ := ih
    refine ⟨⟨⟨nonempty, plain⟩, hsuits⟩, rest, ?_,
      fun hne => (endsOpen_cons more.ne_nil).mpr (hopen hne)⟩
    rw [segmentTexts, List.headD_cons, List.tail_cons,
      join_cons (segmentTexts_ne_nil more.ne_nil _), hrest]
    simp

theorem wellFormed_cons (h : WellFormed (segment :: segments)) (hne : segments ≠ []) :
    segment.Single ∧ WellFormed segments := by
  refine ⟨h.2 segment ?_, fun text hin => h.1 text (List.mem_cons_of_mem _ hin), ?_⟩
  · rw [List.dropLast_cons_of_ne_nil hne]
    exact List.mem_cons_self
  · intro other hother
    refine h.2 other ?_
    rw [List.dropLast_cons_of_ne_nil hne]
    exact List.mem_cons_of_mem _ hother

theorem parses_of_substitution {rest : Bytes} (hwell : WellFormed segments) (hne : segments ≠ [])
    (hsuits : Suits segments values) (hopen : rest ≠ [] → EndsOpen segments) :
    Parses segments (join (segmentTexts segments values) [slash] ++ rest) values := by
  induction segments generalizing values with
  | nil => exact absurd rfl hne
  | cons segment others ih =>
    by_cases hlast : others = []
    · subst hlast
      -- the last segment, which alone may be open
      cases segment with
      | segmentStatic text =>
        obtain rfl : values = [] := hsuits
        have hrest : rest = [] := by
          by_contra hmore
          exact nomatch hopen hmore
        simp only [segmentTexts, join_singleton, hrest, List.append_nil]
        exact .staticLast (hwell.1 text List.mem_cons_self)
      | segmentPrefix =>
        obtain rfl : values = [] := hsuits
        exact .prefixLast
      | segmentParameter name =>
        have hrest : rest = [] := by
          by_contra hmore
          exact nomatch hopen hmore
        cases values with
        | nil => exact hsuits.elim
        | cons value more =>
          obtain ⟨⟨hvalue, hplain⟩, rfl : more = []⟩ := hsuits
          simp only [segmentTexts, join_singleton, List.headD_cons, hrest, List.append_nil]
          exact .parameterLast hvalue hplain
      | segmentCatchAll name =>
        have hrest : rest = [] := by
          by_contra hmore
          exact nomatch hopen hmore
        cases values with
        | nil => exact hsuits.elim
        | cons value more =>
          obtain rfl : more = [] := hsuits
          simp only [segmentTexts, join_singleton, List.headD_cons, hrest, List.append_nil]
          exact .catchAllLast
    · obtain ⟨hsingle, hothers⟩ := wellFormed_cons hwell hlast
      have hopened : rest ≠ [] → EndsOpen others := fun hmore =>
        (endsOpen_cons hlast).mp (hopen hmore)
      cases segment with
      | segmentStatic text =>
        rw [segmentTexts, join_cons (segmentTexts_ne_nil hlast _), List.append_assoc,
          List.append_assoc]
        exact .static hsingle (ih hothers hlast hsuits hopened)
      | segmentParameter name =>
        cases values with
        | nil => exact hsuits.elim
        | cons value more =>
          obtain ⟨⟨hvalue, hplain⟩, hmore⟩ := hsuits
          rw [segmentTexts, join_cons (segmentTexts_ne_nil hlast _), List.append_assoc,
            List.append_assoc]
          exact .parameter hvalue hplain (ih hothers hlast hmore hopened)
      | segmentPrefix => exact hsingle.elim
      | segmentCatchAll name => exact hsingle.elim

/-! ## The loop -/

/-- The segment of the path at a position: what it is, and what follows it. -/
theorem segmentEnd_cases (h : position ≤ path.length) :
    ∃ value, slash ∉ value ∧ segmentEnd path position = position + value.length ∧
      slice path position (segmentEnd path position) = value ∧
      ((segmentEnd path position = path.length ∧ path.drop position = value) ∨
        ∃ rest, segmentEnd path position + 1 ≤ path.length ∧
          path.drop position = value ++ slash :: rest ∧
          path.drop (segmentEnd path position + 1) = rest) := by
  cases hindex : indexByte (path.drop position) slash with
  | none =>
    have hend : segmentEnd path position = path.length := by rw [segmentEnd, hindex]
    refine ⟨path.drop position, indexByte_eq_none.mp hindex, ?_, ?_, .inl ⟨hend, rfl⟩⟩
    · rw [hend, List.length_drop]
      omega
    · rw [hend, slice, List.take_length]
  | some offset =>
    obtain ⟨value, rest, hdrop, hlength, hplain⟩ := exists_of_indexByte hindex
    have hend : segmentEnd path position = position + value.length := by
      rw [segmentEnd, hindex, hlength]
    have hsize := congrArg List.length hdrop
    rw [List.length_drop, List.length_append, List.length_cons] at hsize
    refine ⟨value, hplain, hend, ?_, .inr ⟨rest, ?_, hdrop, ?_⟩⟩
    · rw [hend, slice, List.drop_take, hdrop, Nat.add_sub_cancel_left, List.take_left]
    · rw [hend]
      omega
    · rw [hend, Nat.add_assoc, ← List.drop_drop, hdrop, ← List.drop_drop, List.drop_left]
      rfl

/-- Two ways to cut a text at its first slash agree. -/
theorem append_slash_inj {left right more others : Bytes} (hleft : slash ∉ left)
    (hright : slash ∉ right) (h : left ++ slash :: more = right ++ slash :: others) :
    left = right ∧ more = others := by
  have hcut := congrArg (cut · slash) h
  rw [cut_append_cons hleft, cut_append_cons hright] at hcut
  exact Prod.mk.inj (Option.some.inj hcut)

theorem not_mem_append_slash {left right more : Bytes} (hleft : slash ∉ left) :
    left ≠ right ++ slash :: more := by
  rintro rfl
  exact hleft (List.mem_append_right _ List.mem_cons_self)

/-- The segments of the path that a segment accepts. -/
def PathSegment.Takes : PathSegment → Bytes → Prop
  | segmentStatic text, value => value = text
  | segmentParameter _, value => value ≠ []
  | segmentPrefix, _ | segmentCatchAll _, _ => False

/-- The values a segment captures when it takes one. -/
def PathSegment.valuesOf : PathSegment → Bytes → List Bytes
  | segmentParameter _, value => [value]
  | segmentStatic _, _ | segmentPrefix, _ | segmentCatchAll _, _ => []

/-- The spans a segment captures when it takes a segment at a position. -/
def PathSegment.spansOf : PathSegment → Nat → Bytes → List ParamSpan
  | segmentParameter name, position, value => [⟨name, position, position + value.length⟩]
  | segmentStatic _, _, _ | segmentPrefix, _, _ | segmentCatchAll _, _, _ => []

theorem matchSegment_single (hsingle : segment.Single) (hposition : position ≤ path.length)
    (hend : segmentEnd path position = position + value.length)
    (hslice : slice path position (segmentEnd path position) = value) (params : List ParamSpan) :
    (segment.Takes value ∧ matchSegment path segment position params =
        .consumed (segmentEnd path position) (params ++ segment.spansOf position value)) ∨
      (¬ segment.Takes value ∧ matchSegment path segment position params = .rejected) := by
  have hinside : ¬ path.length < position := not_lt.mpr hposition
  unfold matchSegment
  rw [if_neg hinside]
  cases segment with
  | segmentStatic text =>
    simp only [hslice, PathSegment.Takes, PathSegment.spansOf, List.append_nil]
    by_cases htext : value = text
    · exact .inl ⟨htext, if_pos htext⟩
    · exact .inr ⟨htext, if_neg htext⟩
  | segmentParameter name =>
    simp only [hend, PathSegment.Takes, PathSegment.spansOf]
    by_cases hvalue : value = []
    · exact .inr ⟨not_not.mpr hvalue, if_pos (by rw [hvalue]; rfl)⟩
    refine .inl ⟨hvalue, if_neg ?_⟩
    have hlength := List.length_pos_iff.mpr hvalue
    omega
  | segmentPrefix => exact hsingle.elim
  | segmentCatchAll name => exact hsingle.elim

/-- A single segment takes the text up to the first slash or to the end. -/
theorem parses_single (hsingle : segment.Single) {others : List PathSegment} :
    Parses (segment :: others) text values ↔
      ∃ value, slash ∉ value ∧ segment.Takes value ∧
        ((others = [] ∧ text = value ∧ values = segment.valuesOf value) ∨
          ∃ rest more, text = value ++ slash :: rest ∧ Parses others rest more ∧
            values = segment.valuesOf value ++ more) := by
  constructor
  · intro h
    cases h with
    | staticLast plain => exact ⟨text, plain, rfl, .inl ⟨rfl, rfl, rfl⟩⟩
    | parameterLast nonempty plain => exact ⟨text, plain, nonempty, .inl ⟨rfl, rfl, rfl⟩⟩
    | prefixLast => exact hsingle.elim
    | catchAllLast => exact hsingle.elim
    | static plain more => exact ⟨_, plain, rfl, .inr ⟨_, _, rfl, more, rfl⟩⟩
    | parameter nonempty plain more => exact ⟨_, plain, nonempty, .inr ⟨_, _, rfl, more, rfl⟩⟩
  · rintro ⟨value, hplain, htakes, ⟨rfl, rfl, rfl⟩ | ⟨rest, more, rfl, hmore, rfl⟩⟩
    · cases segment with
      | segmentStatic text =>
        obtain rfl : text = _ := htakes.symm
        exact .staticLast hplain
      | segmentParameter name => exact .parameterLast htakes hplain
      | segmentPrefix => exact hsingle.elim
      | segmentCatchAll name => exact hsingle.elim
    · cases segment with
      | segmentStatic text =>
        obtain rfl : text = _ := htakes.symm
        exact .static hplain hmore
      | segmentParameter name => exact .parameter htakes hplain hmore
      | segmentPrefix => exact hsingle.elim
      | segmentCatchAll name => exact hsingle.elim

theorem spansAt_single (hsingle : segment.Single) (htakes : segment.Takes value) (position : Nat)
    (others : List PathSegment) (more : List Bytes) :
    spansAt position (segment :: others) (segment.valuesOf value ++ more) =
      segment.spansOf position value ++ spansAt (position + value.length + 1) others more := by
  cases segment with
  | segmentStatic text =>
    obtain rfl : text = value := htakes.symm
    rfl
  | segmentParameter name => rfl
  | segmentPrefix => exact hsingle.elim
  | segmentCatchAll name => exact hsingle.elim

/-- A parse by a single segment at a position takes the segment of the path that
starts there. -/
theorem parses_at_iff (hsingle : segment.Single) (hplain : slash ∉ value)
    (htail : (segmentEnd path position = path.length ∧ path.drop position = value) ∨
      ∃ rest, segmentEnd path position + 1 ≤ path.length ∧
        path.drop position = value ++ slash :: rest ∧
        path.drop (segmentEnd path position + 1) = rest) {others : List PathSegment} :
    Parses (segment :: others) (path.drop position) values ↔
      segment.Takes value ∧
        ((others = [] ∧ segmentEnd path position = path.length ∧
            values = segment.valuesOf value) ∨
          segmentEnd path position + 1 ≤ path.length ∧
            ∃ more, Parses others (path.drop (segmentEnd path position + 1)) more ∧
              values = segment.valuesOf value ++ more) := by
  rw [parses_single hsingle]
  rcases htail with ⟨hlast, hdrop⟩ | ⟨rest, hinside, hdrop, hrest⟩
  · -- the path ends with this segment, so no parse goes on after a slash
    rw [hdrop]
    constructor
    · rintro ⟨other, hother, htakes, ⟨hnone, rfl, hvalues⟩ | ⟨after, more, hsame, _⟩⟩
      · exact ⟨htakes, .inl ⟨hnone, hlast, hvalues⟩⟩
      · exact absurd hsame (not_mem_append_slash hplain)
    · rintro ⟨htakes, ⟨hnone, -, hvalues⟩ | ⟨hlater, _⟩⟩
      · exact ⟨value, hplain, htakes, .inl ⟨hnone, rfl, hvalues⟩⟩
      · omega
  · -- a slash follows, and it is the first one in every way to cut the text
    rw [hdrop, hrest]
    constructor
    · rintro ⟨other, hother, htakes, ⟨_, hsame, _⟩ | ⟨after, more, hsame, hmore, hvalues⟩⟩
      · exact absurd hsame.symm (not_mem_append_slash hother)
      · obtain ⟨rfl, rfl⟩ := append_slash_inj hplain hother hsame
        exact ⟨htakes, .inr ⟨hinside, more, hmore, hvalues⟩⟩
    · rintro ⟨htakes, ⟨_, hlast, _⟩ | ⟨_, more, hmore, hvalues⟩⟩
      · omega
      · exact ⟨value, hplain, htakes, .inr ⟨rest, more, rfl, hmore, hvalues⟩⟩

/-- The loop finds exactly the parses of the rest of the path. -/
theorem matchSegments_iff (hwell : WellFormed segments) (hposition : position ≤ path.length)
    {params result : List ParamSpan} :
    matchSegments path segments position params = some result ↔
      ∃ values, Parses segments (path.drop position) values ∧
        result = params ++ spansAt position segments values := by
  induction segments generalizing position params with
  | nil =>
    refine iff_of_false (by simp [matchSegments]) ?_
    rintro ⟨values, hparses, -⟩
    exact hparses.ne_nil rfl
  | cons segment others ih =>
    by_cases hsingle : segment.Single
    · obtain ⟨value, hplain, hend, hslice, htail⟩ := segmentEnd_cases hposition
      simp only [parses_at_iff hsingle hplain htail]
      rcases matchSegment_single hsingle hposition hend hslice params with
        ⟨htakes, hmatch⟩ | ⟨htakes, hmatch⟩
      · have hspans := spansAt_single hsingle htakes position others
        rw [matchSegments, hmatch, hend]
        rw [hend] at htail
        by_cases hempty : others = []
        · subst hempty
          have hlastSpans := hspans []
          rw [List.append_nil, spansAt, List.append_nil] at hlastSpans
          show (if position + value.length = path.length then some _ else none) = _ ↔ _
          by_cases hlast : position + value.length = path.length
          · rw [if_pos hlast]
            constructor
            · intro h
              exact ⟨_, ⟨htakes, .inl ⟨rfl, hlast, rfl⟩⟩, by rw [hlastSpans, Option.some.inj h]⟩
            · rintro ⟨values, ⟨-, ⟨-, -, rfl⟩ | ⟨_, more, hmore, -⟩⟩, rfl⟩
              · rw [hlastSpans]
              · exact absurd rfl hmore.ne_nil
          · rw [if_neg hlast]
            refine iff_of_false (by simp) ?_
            rintro ⟨values, ⟨-, ⟨_, hlast', _⟩ | ⟨_, more, hmore, -⟩⟩, -⟩
            · exact hlast hlast'
            · exact hmore.ne_nil rfl
        · show (if others.isEmpty = true then _ else
            if position + value.length = path.length then none else
              matchSegments path others (position + value.length + 1) _) = _ ↔ _
          rw [if_neg (by simpa using hempty)]
          by_cases hlast : position + value.length = path.length
          · rw [if_pos hlast]
            refine iff_of_false (by simp) ?_
            rintro ⟨values, ⟨-, ⟨hnone, _⟩ | ⟨hinside, _⟩⟩, -⟩
            · exact hempty hnone
            · omega
          · have hinside : position + value.length + 1 ≤ path.length := by
              rcases htail with ⟨hends, _⟩ | ⟨_, hinside, _⟩
              · exact absurd hends hlast
              · exact hinside
            rw [if_neg hlast, ih (wellFormed_cons hwell hempty).2 hinside]
            constructor
            · rintro ⟨more, hmore, rfl⟩
              refine ⟨_, ⟨htakes, .inr ⟨hinside, more, hmore, rfl⟩⟩, ?_⟩
              rw [hspans, List.append_assoc]
            · rintro ⟨values, ⟨-, ⟨hnone, _⟩ | ⟨_, more, hmore, rfl⟩⟩, rfl⟩
              · exact absurd hnone hempty
              · exact ⟨more, hmore, by rw [hspans, List.append_assoc]⟩
      · rw [matchSegments, hmatch]
        refine iff_of_false (by simp) ?_
        rintro ⟨_, ⟨hother, _⟩, _⟩
        exact htakes hother
    · -- an open segment ends the pattern and takes the rest of the path
      have hempty : others = [] := by
        by_contra hothers
        exact hsingle (wellFormed_cons hwell hothers).1
      subst hempty
      have hinside : ¬ path.length < position := not_lt.mpr hposition
      cases segment with
      | segmentStatic text => exact absurd (hwell.1 text List.mem_cons_self) hsingle
      | segmentParameter name => exact absurd trivial hsingle
      | segmentPrefix =>
        have hmatch : matchSegment path .segmentPrefix position params = .accepted params :=
          if_neg hinside
        rw [matchSegments, hmatch]
        constructor
        · intro h
          exact ⟨[], .prefixLast, by simpa [spansAt] using (Option.some.inj h).symm⟩
        · rintro ⟨values, hparses, rfl⟩
          cases hparses with
          | prefixLast => simp [spansAt]
      | segmentCatchAll name =>
        have hlength : position + (path.drop position).length = path.length := by
          rw [List.length_drop]
          omega
        have hmatch : matchSegment path (.segmentCatchAll name) position params =
            .accepted (params ++ [⟨name, position, path.length⟩]) := if_neg hinside
        rw [matchSegments, hmatch]
        constructor
        · intro h
          refine ⟨_, .catchAllLast, ?_⟩
          rw [← Option.some.inj h]
          simp only [spansAt, List.headD_cons, hlength]
        · rintro ⟨values, hparses, rfl⟩
          cases hparses with
          | catchAllLast => simp only [spansAt, List.headD_cons, hlength]

/-! ## Compiled patterns -/

/-- A text with something between its first bytes and its last one. -/
theorem eq_of_slice {raw opening : Bytes} {start : Nat} (hstart : opening.length = start)
    (hopening : hasPrefix raw opening = true) (hclosing : hasSuffix raw [125] = true)
    (hne : slice raw start (raw.length - 1) ≠ []) :
    opening ++ slice raw start (raw.length - 1) ++ [125] = raw := by
  obtain ⟨before, hbefore⟩ := List.getLast?_eq_some_iff.mp (hasSuffix_singleton.mp hclosing)
  obtain ⟨after, hafter⟩ := List.isPrefixOf_iff_prefix.mp hopening
  have hlength : raw.length - 1 = before.length := by rw [hbefore]; simp
  have hmiddle : slice raw start (raw.length - 1) = before.drop start := by
    rw [slice, hlength, hbefore, List.take_left]
  have hshort : start ≤ before.length := by
    by_contra hlong
    rw [hmiddle, List.drop_eq_nil_of_le (by omega)] at hne
    exact hne rfl
  have htake : opening = before.take start := by
    have hwithin := congrArg (List.take start) (hafter.trans hbefore)
    rw [← hstart, List.take_left, hstart, List.take_append_of_le_length hshort] at hwithin
    exact hwithin
  rw [hmiddle, htake, List.take_append_drop, hbefore]

theorem ne_nil_of_validParameterName {name : Bytes} (h : validParameterName name = true) :
    name ≠ [] := by
  rintro rfl
  exact absurd h Bool.false_ne_true

theorem compilePathSegment_spec {raw : Bytes} {final : Bool}
    (h : compilePathSegment raw final = .ok segment) (hplain : slash ∉ raw) :
    segment.source = raw ∧ (∀ text, segment = .segmentStatic text → slash ∉ text) ∧
      (final = false → segment.Single) := by
  unfold compilePathSegment at h
  dsimp only at h
  split_ifs at h with hstar hfinal hcatchAll hlast hname hbraced hname
  · cases h
    exact ⟨hstar.symm, nofun, fun hnot => absurd hfinal (by simp [hnot])⟩
  · cases h
    simp only [braced, Bool.and_eq_true] at hcatchAll
    have hvalid : validParameterName (slice raw 2 (raw.length - 1)) = true := by simpa using hname
    refine ⟨?_, nofun, fun hnot => absurd hlast (by simp [hnot])⟩
    exact eq_of_slice rfl hcatchAll.1.1.1 hcatchAll.1.1.2 (ne_nil_of_validParameterName hvalid)
  · cases h
    simp only [braced, Bool.and_eq_true] at hbraced
    have hvalid : validParameterName (slice raw 1 (raw.length - 1)) = true := by simpa using hname
    refine ⟨?_, nofun, fun _ => trivial⟩
    exact eq_of_slice rfl hbraced.1.1.1 hbraced.1.1.2 (ne_nil_of_validParameterName hvalid)
  · cases h
    exact ⟨rfl, fun text htext => PathSegment.segmentStatic.inj htext ▸ hplain, fun _ => hplain⟩

/-- The segment loop appends one segment for each raw segment. -/
theorem segments_of_compilePathSegments {pattern : Bytes} {raws : List Bytes}
    (hplain : ∀ raw ∈ raws, slash ∉ raw) {index : Nat} {names : List Bytes}
    {compiled result : CompiledPathPattern}
    (h : compilePathSegments pattern index names raws compiled = .ok result) :
    ∃ segments, result.segments = compiled.segments ++ segments ∧
      segments.map PathSegment.source = raws ∧ WellFormed segments := by
  induction raws generalizing index names compiled with
  | nil =>
    cases h
    exact ⟨[], (List.append_nil _).symm, rfl, nofun, nofun⟩
  | cons raw rest ih =>
    rw [List.forall_mem_cons] at hplain
    rw [compilePathSegments] at h
    cases hsegment : compilePathSegment raw rest.isEmpty with
    | error cause => exact nomatch hsegment ▸ h
    | ok segment =>
      obtain ⟨hsource, hstatic, hsingle⟩ := compilePathSegment_spec hsegment hplain.1
      -- every arm of the switch goes on with this segment appended
      have hgoes : ∃ names' compiled',
          compilePathSegments pattern (index + 1) names' rest compiled' = .ok result ∧
            compiled'.segments = compiled.segments ++ [segment] := by
        rw [hsegment] at h
        cases segment with
        | segmentStatic text => exact ⟨_, _, h, rfl⟩
        | segmentParameter name =>
          dsimp only at h
          split at h
          · contradiction
          · exact ⟨_, _, h, rfl⟩
        | segmentPrefix => exact ⟨_, _, h, rfl⟩
        | segmentCatchAll name =>
          dsimp only at h
          split at h
          · contradiction
          · exact ⟨_, _, h, rfl⟩
      obtain ⟨names', compiled', hrest, hcompiled⟩ := hgoes
      obtain ⟨segments, hsegments, hsources, hwell⟩ := ih hplain.2 hrest
      refine ⟨segment :: segments, ?_, ?_, ?_, ?_⟩
      · rw [hsegments, hcompiled, List.append_assoc]
        rfl
      · rw [List.map_cons, hsource, hsources]
      · intro text htext
        rcases List.mem_cons.mp htext with hhere | hthere
        · exact hstatic text hhere.symm
        · exact hwell.1 text hthere
      · cases segments with
        | nil => exact nofun
        | cons second others =>
          have hmore : rest.isEmpty = false := by
            rw [← hsources]
            rfl
          rw [List.dropLast_cons_of_ne_nil (List.cons_ne_nil _ _)]
          exact List.forall_mem_cons.mpr ⟨hsingle hmore, hwell.2⟩

/-- A compiled pattern prints back to its source. -/
theorem source_of_compilePathPattern {pattern : Bytes} {compiled : CompiledPathPattern}
    (h : compilePathPattern pattern = .ok compiled) :
    slash :: join (compiled.segments.map PathSegment.source) [slash] = pattern ∧
      WellFormed compiled.segments := by
  unfold compilePathPattern at h
  split_ifs at h with habsolute hquery
  have hplain : ∀ raw ∈ rawSegments pattern, slash ∉ raw := by
    unfold rawSegments
    split
    · exact nofun
    · exact fun raw hraw hmem => ((mem_of_mem_split raw hraw).2 slash hmem).2 rfl
  obtain ⟨segments, hsegments, hsources, hwell⟩ := segments_of_compilePathSegments hplain h
  rw [List.nil_append] at hsegments
  rw [hsegments, hsources]
  refine ⟨?_, hwell⟩
  have hhead : ∃ rest, pattern = slash :: rest := by
    exact List.head?_eq_some_iff.mp (hasPrefix_singleton.mp (by simpa using habsolute))
  obtain ⟨rest, rfl⟩ := hhead
  unfold rawSegments
  split
  next hroot =>
    rw [hroot]
    rfl
  next => exact congrArg (slash :: ·) (List.intercalate_splitOn slash)

/-! ## Spans -/

/-- `path[span.Start:span.End]`. -/
def captured (path : Bytes) (span : ParamSpan) : Bytes :=
  slice path span.start span.stop

theorem slice_of_drop {after : Bytes} (h : path.drop position = value ++ after) :
    slice path position (position + value.length) = value := by
  rw [slice, List.drop_take, h, Nat.add_sub_cancel_left, List.take_left]

/-- Where the spans of a parse lie and what they hold. -/
theorem Parses.spans (h : Parses segments text values) (hposition : position ≤ path.length)
    (htext : path.drop position = text) :
    (∀ span ∈ spansAt position segments values,
      position ≤ span.start ∧ span.start ≤ span.stop ∧ span.stop ≤ path.length) ∧
    (spansAt position segments values).Pairwise (fun earlier later => earlier.stop < later.start) ∧
    (spansAt position segments values).map ParamSpan.name =
      segments.filterMap PathSegment.captures ∧
    (spansAt position segments values).map (captured path) = values := by
  have hsize := congrArg List.length htext
  rw [List.length_drop] at hsize
  induction h generalizing position with
  | staticLast => exact ⟨nofun, List.Pairwise.nil, rfl, rfl⟩
  | prefixLast => exact ⟨nofun, List.Pairwise.nil, rfl, rfl⟩
  | @parameterLast name value nonempty plain =>
    have hslice : slice path position (position + value.length) = value :=
      slice_of_drop (htext.trans (List.append_nil _).symm)
    refine ⟨?_, List.pairwise_singleton _ _, rfl, congrArg ([·]) hslice⟩
    refine List.forall_mem_singleton.mpr ⟨le_refl _, Nat.le_add_right _ _, ?_⟩
    show position + value.length ≤ path.length
    omega
  | @catchAllLast name value =>
    have hslice : slice path position (position + value.length) = value :=
      slice_of_drop (htext.trans (List.append_nil _).symm)
    refine ⟨?_, List.pairwise_singleton _ _, rfl, congrArg ([·]) hslice⟩
    refine List.forall_mem_singleton.mpr ⟨le_refl _, Nat.le_add_right _ _, ?_⟩
    show position + value.length ≤ path.length
    omega
  | @static text rest segments values plain more ih =>
    rw [List.length_append, List.length_cons] at hsize
    have hrest : path.drop (position + text.length + 1) = rest := by
      rw [Nat.add_assoc, ← List.drop_drop, htext, ← List.drop_drop, List.drop_left]
      rfl
    have hrestSize := congrArg List.length hrest
    rw [List.length_drop] at hrestSize
    obtain ⟨hbounds, horder, hnames, hvalues⟩ := ih (by omega) hrest hrestSize
    refine ⟨fun span hspan => ?_, horder, hnames, hvalues⟩
    obtain ⟨hstart, hinner⟩ := hbounds span hspan
    exact ⟨by omega, hinner⟩
  | @parameter name value rest segments values nonempty plain more ih =>
    rw [List.length_append, List.length_cons] at hsize
    have hrest : path.drop (position + value.length + 1) = rest := by
      rw [Nat.add_assoc, ← List.drop_drop, htext, ← List.drop_drop, List.drop_left]
      rfl
    have hrestSize := congrArg List.length hrest
    rw [List.length_drop] at hrestSize
    obtain ⟨hbounds, horder, hnames, hvalues⟩ := ih (by omega) hrest hrestSize
    refine ⟨?_, ?_, congrArg (name :: ·) hnames, ?_⟩
    · refine List.forall_mem_cons.mpr ⟨⟨le_refl _, Nat.le_add_right _ _, ?_⟩, ?_⟩
      · show position + value.length ≤ path.length
        omega
      · intro span hspan
        obtain ⟨hstart, hinner⟩ := hbounds span hspan
        exact ⟨by omega, hinner⟩
    · refine List.pairwise_cons.mpr ⟨fun span hspan => ?_, horder⟩
      have hstart := (hbounds span hspan).1
      show position + value.length < span.start
      omega
    · exact congrArg₂ List.cons (slice_of_drop htext) hvalues

theorem substitute_ends (hopen : EndsOpen segments) (values : List Bytes) :
    hasSuffix (substitute segments values) [slash] = true := by
  rw [hasSuffix_singleton]
  induction segments generalizing values with
  | nil => exact nomatch hopen
  | cons segment others ih =>
    by_cases hlast : others = []
    · subst hlast
      obtain rfl : segment = .segmentPrefix := Option.some.inj hopen
      rfl
    have hmore := fun values => ih ((endsOpen_cons hlast).mp hopen) values
    have hjoined (text : Bytes) (values : List Bytes) :
        (slash :: join (text :: segmentTexts others values) [slash]).getLast? = some slash := by
      rw [join_cons (segmentTexts_ne_nil hlast values), List.append_assoc, ← List.cons_append,
        List.getLast?_append]
      have hrest := hmore values
      rw [substitute] at hrest
      rw [List.singleton_append, hrest]
      rfl
    cases segment <;> exact hjoined _ _

/-! ## Slices in bounds -/

/-- What a slice expression does when it is out of range. -/
inductive SliceError where
  | outOfRange
  deriving DecidableEq, Repr

/-- `s[start:stop]` with the check that the language makes. -/
def sliceChecked (s : Bytes) (start stop : Nat) : Except SliceError Bytes :=
  if start ≤ stop ∧ stop ≤ s.length then .ok (slice s start stop) else .error .outOfRange

/-- The search for the next slash in `path[position:]`. -/
def segmentEndChecked (path : Bytes) (position : Nat) : Except SliceError Nat := do
  let tail ← sliceChecked path position path.length
  return match indexByte tail slash with
    | some offset => position + offset
    | none => path.length

def matchSegmentChecked (path : Bytes) (segment : PathSegment) (position : Nat)
    (params : List ParamSpan) : Except SliceError SegmentOutcome :=
  if path.length < position then .ok .rejected
  else
    match segment with
    | .segmentPrefix => .ok (.accepted params)
    | .segmentCatchAll name => .ok (.accepted (params ++ [⟨name, position, path.length⟩]))
    | .segmentStatic text => do
        let stop ← segmentEndChecked path position
        let value ← sliceChecked path position stop
        return if value = text then .consumed stop params else .rejected
    | .segmentParameter name => do
        let stop ← segmentEndChecked path position
        return if stop = position then .rejected
          else .consumed stop (params ++ [⟨name, position, stop⟩])

def matchSegmentsChecked (path : Bytes) :
    List PathSegment → Nat → List ParamSpan → Except SliceError (Option (List ParamSpan))
  | [], _, _ => .ok none
  | segment :: rest, position, params => do
      match ← matchSegmentChecked path segment position params with
      | .accepted result => return some result
      | .rejected => return none
      | .consumed stop collected =>
        if rest.isEmpty then return if stop = path.length then some collected else none
        else if stop = path.length then return none
        else matchSegmentsChecked path rest (stop + 1) collected

/-- `compiledPathPattern.match` with the check of every slice expression. -/
def CompiledPathPattern.matchChecked (pattern : CompiledPathPattern) (path : Bytes) :
    Except SliceError (Option (List ParamSpan)) :=
  if !hasPrefix path [slash] then .ok none
  else if pattern.segments.isEmpty then .ok (if path = [slash] then some [] else none)
  else matchSegmentsChecked path pattern.segments 1 []

theorem segmentEndChecked_eq (h : position ≤ path.length) :
    segmentEndChecked path position = .ok (segmentEnd path position) := by
  have htail : slice path position path.length = path.drop position := by
    rw [slice, List.take_length]
  rw [segmentEndChecked, sliceChecked, if_pos ⟨h, le_refl _⟩, htail]
  rfl

theorem matchSegmentChecked_eq (path : Bytes) (segment : PathSegment) (position : Nat)
    (params : List ParamSpan) :
    matchSegmentChecked path segment position params =
      .ok (matchSegment path segment position params) := by
  unfold matchSegmentChecked matchSegment
  by_cases hbeyond : path.length < position
  · rw [if_pos hbeyond, if_pos hbeyond]
  have hinside : position ≤ path.length := not_lt.mp hbeyond
  rw [if_neg hbeyond, if_neg hbeyond]
  cases segment with
  | segmentPrefix => rfl
  | segmentCatchAll name => rfl
  | segmentStatic text =>
    rw [segmentEndChecked_eq hinside]
    show (sliceChecked path position (segmentEnd path position) >>= _) = _
    rw [sliceChecked, if_pos ⟨le_segmentEnd hinside, segmentEnd_le hinside⟩]
    rfl
  | segmentParameter name =>
    rw [segmentEndChecked_eq hinside]
    rfl

theorem matchSegmentsChecked_eq (path : Bytes) (segments : List PathSegment) (position : Nat)
    (params : List ParamSpan) :
    matchSegmentsChecked path segments position params =
      .ok (matchSegments path segments position params) := by
  induction segments generalizing position params with
  | nil => rfl
  | cons segment rest ih =>
    rw [matchSegmentsChecked, matchSegmentChecked_eq, matchSegments]
    show (match matchSegment path segment position params with
      | .accepted result => _
      | .rejected => _
      | .consumed stop collected => _) = _
    cases matchSegment path segment position params with
    | accepted result => rfl
    | rejected => rfl
    | consumed stop collected =>
      dsimp only
      split_ifs
      · rfl
      · rfl
      · rfl
      · exact ih (stop + 1) collected

/-- No slice expression of the matcher is out of range, whatever the path. -/
theorem matchChecked_eq (pattern : CompiledPathPattern) (path : Bytes) :
    pattern.matchChecked path = .ok (pattern.match path) := by
  unfold CompiledPathPattern.matchChecked CompiledPathPattern.match
  split_ifs
  · rfl
  · rfl
  · rfl
  · exact matchSegmentsChecked_eq path pattern.segments 1 []

/-! ## Matching is parsing -/

/-- A path matches exactly when it is the pattern with values substituted. -/
theorem match_iff {pattern : CompiledPathPattern} (hwell : WellFormed pattern.segments)
    {spans : List ParamSpan} :
    pattern.match path = some spans ↔
      ∃ values rest, Suits pattern.segments values ∧ (rest ≠ [] → EndsOpen pattern.segments) ∧
        path = substitute pattern.segments values ++ rest ∧
        spans = spansAt 1 pattern.segments values := by
  unfold CompiledPathPattern.match
  cases path with
  | nil => exact iff_of_false nofun fun ⟨_, _, _, _, hpath, _⟩ => nomatch hpath
  | cons first tail =>
    by_cases hfirst : first = slash
    · subst hfirst
      have habsolute : hasPrefix (slash :: tail) [slash] = true := hasPrefix_singleton.mpr rfl
      rw [if_neg (by simp [habsolute])]
      by_cases hempty : pattern.segments = []
      · -- the root pattern matches the root path only
        rw [if_pos (by simp [hempty]), hempty]
        constructor
        · intro h
          split_ifs at h with hroot
          exact ⟨[], [], rfl, absurd rfl, hroot, (Option.some.inj h).symm⟩
        · rintro ⟨values, rest, hvalues, hopen, hpath, rfl⟩
          have hrest : rest = [] := by
            by_contra hmore
            exact nomatch hopen hmore
          obtain rfl : values = [] := hvalues
          rw [hrest] at hpath
          exact if_pos hpath
      · rw [if_neg (by simpa using hempty), matchSegments_iff hwell (by simp)]
        constructor
        · rintro ⟨values, hparses, rfl⟩
          obtain ⟨hsuits, rest, hrest, hopen⟩ := hparses.substitution
          exact ⟨values, rest, hsuits, hopen, congrArg (slash :: ·) hrest, rfl⟩
        · rintro ⟨values, rest, hsuits, hopen, hpath, rfl⟩
          refine ⟨values, ?_, rfl⟩
          rw [(List.cons.inj hpath).2]
          exact parses_of_substitution hwell hempty hsuits hopen
    · have hrelative : ¬ hasPrefix (first :: tail) [slash] = true := by
        rw [hasPrefix_singleton]
        exact fun hhead => hfirst (Option.some.inj hhead)
      rw [if_pos (by simpa using hrelative)]
      exact iff_of_false nofun fun ⟨_, _, _, _, hpath, _⟩ => hfirst (List.cons.inj hpath).1

theorem spans_of_substitution (hwell : WellFormed segments) {rest : Bytes}
    (hsuits : Suits segments values) (hopen : rest ≠ [] → EndsOpen segments) :
    (∀ span ∈ spansAt 1 segments values,
      span.start ≤ span.stop ∧ span.stop ≤ (substitute segments values ++ rest).length) ∧
    (spansAt 1 segments values).Pairwise (fun earlier later => earlier.stop < later.start) ∧
    (spansAt 1 segments values).map ParamSpan.name = segments.filterMap PathSegment.captures ∧
    (spansAt 1 segments values).map (captured (substitute segments values ++ rest)) = values := by
  by_cases hempty : segments = []
  · subst hempty
    obtain rfl : values = [] := hsuits
    exact ⟨nofun, List.Pairwise.nil, rfl, rfl⟩
  · have hparses := parses_of_substitution hwell hempty hsuits hopen
    have hone : 1 ≤ (substitute segments values ++ rest).length := by simp [substitute]
    obtain ⟨hbounds, horder, hnames, hvalues⟩ := hparses.spans hone rfl
    exact ⟨fun span hspan => (hbounds span hspan).2, horder, hnames, hvalues⟩

/-- The captures of an accepted pattern are an exact parse of the path.  The
pattern is its segments between slashes; a match names the captures in order,
with spans in bounds and apart, and putting them in the place of the parameters
gives the path back, up to what an asterisk at the end takes; every path made
this way is matched with the values it was made from; and no slice expression of
the matcher is out of range. -/
theorem captures_exact (pattern : Bytes) (compiled : CompiledPathPattern)
    (h : compilePathPattern pattern = .ok compiled) (path : Bytes) :
    slash :: join (compiled.segments.map PathSegment.source) [slash] = pattern ∧
    (∀ spans, compiled.match path = some spans →
      (∀ span ∈ spans, span.start ≤ span.stop ∧ span.stop ≤ path.length) ∧
      spans.Pairwise (fun earlier later => earlier.stop < later.start) ∧
      spans.map ParamSpan.name = compiled.segments.filterMap PathSegment.captures ∧
      Suits compiled.segments (spans.map (captured path)) ∧
      if EndsOpen compiled.segments then
        substitute compiled.segments (spans.map (captured path)) <+: path ∧
          hasSuffix (substitute compiled.segments (spans.map (captured path))) [slash] = true
      else substitute compiled.segments (spans.map (captured path)) = path) ∧
    (∀ values rest, Suits compiled.segments values → (rest ≠ [] → EndsOpen compiled.segments) →
      path = substitute compiled.segments values ++ rest →
      ∃ spans, compiled.match path = some spans ∧
        spans.map ParamSpan.name = compiled.segments.filterMap PathSegment.captures ∧
        spans.map (captured path) = values) ∧
    compiled.matchChecked path = .ok (compiled.match path) := by
  obtain ⟨hsource, hwell⟩ := source_of_compilePathPattern h
  refine ⟨hsource, ?_, ?_, matchChecked_eq compiled path⟩
  · intro spans hmatch
    obtain ⟨values, rest, hsuits, hopen, rfl, rfl⟩ := (match_iff hwell).mp hmatch
    obtain ⟨hbounds, horder, hnames, hvalues⟩ := spans_of_substitution hwell hsuits hopen
    rw [hvalues]
    refine ⟨hbounds, horder, hnames, hsuits, ?_⟩
    split_ifs with hends
    · exact ⟨List.prefix_append _ _, substitute_ends hends values⟩
    have hrest : rest = [] := by
      by_contra hmore
      exact hends (hopen hmore)
    rw [hrest, List.append_nil]
  · rintro values rest hsuits hopen rfl
    obtain ⟨-, -, hnames, hvalues⟩ := spans_of_substitution hwell hsuits hopen
    exact ⟨_, (match_iff hwell).mpr ⟨values, rest, hsuits, hopen, rfl, rfl⟩, hnames, hvalues⟩

theorem captures_exact_parameter :
    ∃ compiled, compilePathPattern (ascii "/api/\x7bid\x7d/*") = .ok compiled ∧
      substitute compiled.segments [ascii "7"] = ascii "/api/7/" ∧
      ∃ spans, compiled.match (ascii "/api/7/x") = some spans ∧
        spans.map (captured (ascii "/api/7/x")) = [ascii "7"] := by
  have hcompiled : compilePathPattern (ascii "/api/\x7bid\x7d/*") =
      .ok ⟨ascii "/api/\x7bid\x7d/*",
        [.segmentStatic (ascii "api"), .segmentParameter (ascii "id"), .segmentPrefix],
        ⟨1, 1, 3, 11⟩, 1⟩ := rfl
  obtain ⟨-, -, hmatched, -⟩ := captures_exact _ _ hcompiled (ascii "/api/7/x")
  obtain ⟨spans, hspans, -, hvalues⟩ :=
    hmatched [ascii "7"] (ascii "x") ⟨⟨by decide, by decide⟩, rfl⟩ (fun _ => rfl) rfl
  exact ⟨_, hcompiled, rfl, spans, hspans, hvalues⟩

end GGateway.Router
