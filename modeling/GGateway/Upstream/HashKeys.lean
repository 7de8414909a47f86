import GGateway.Library.PrefixCode
import GGateway.Text.Trim
import GGateway.Upstream.Conservation
import GGateway.Upstream.HashKey

/-!
# Hash keys are unambiguous

What `hashKeyExtractor.sum64` feeds to the digest, read back.  A source extracts
values from a request or is absent from it; the extracted components determine the
bytes and are determined by them, and the bytes of the fallback are never those of
a key with a component.

* `delimited_uvarint` and `delimited_hashString`: numbers and strings end where
  they end, for lengths that an `int` holds;
* `writeSource_inj`: what one source writes gives its component back;
* `hash_keys_unambiguous`: the whole key.
-/

namespace GGateway.Upstream

open Text Model Library.Checks Library.PrefixCode

/-! ## What a source extracts -/

variable (platform : Platform)

/-- The text that stands for a remote address: the unmapped address of its host,
or the text itself when that has none. -/
def normalizedRemote (remoteAddr : Bytes) : Bytes :=
  let host :=
    match splitHostPort remoteAddr with
    | some (host, _) => host
    | none => remoteAddr
  if validAddr host then platform.unmapAddr host else remoteAddr

/-- The remote address of a request that may be nil. -/
def remoteOf (request : Option HashInput) : Bytes :=
  match request with
  | none => []
  | some input => normalizedRemote platform input.remoteAddr

/-- The component of a source in a request, with `none` for absence: the values of
a header, or the one value of a cookie, a remote address or a literal. -/
def extract (request : Option HashInput) (source : HashKeySource) :
    Option (List Bytes) :=
  match source.type with
  | .header =>
    (request.bind fun input => input.header.lookup source.name).filter fun values => values ≠ []
  | .cookie =>
    (request.bind fun input => firstValidCookie
      ((input.header.lookup (ascii "Cookie")).getD []) source.name).map fun value => [value]
  | .remoteAddr =>
    request.bind fun input =>
      if input.remoteAddr = [] then none else some [normalizedRemote platform input.remoteAddr]
  | .literal => some [source.value]
  | .other _ => none

/-- A component as it is written, after its presence byte. -/
def componentBytes (values : List Bytes) : Bytes :=
  uvarint values.length ++ values.flatMap hashString

/-- No configured component is present. -/
def usesFallback (sources : List HashKeySource)
    (request : Option HashInput) : Bool :=
  sources.all fun source => (extract platform request source).isNone

/-- The bytes that `sum64` feeds to the digest. -/
def keyBytes (sources : List HashKeySource) (request : Option HashInput) :
    Bytes :=
  if usesFallback platform sources request then fallbackBytes platform request
  else uvarint sources.length ++ sources.flatMap (writeSource platform request)

theorem hashRemoteAddr_eq (remoteAddr : Bytes) :
    hashRemoteAddr platform remoteAddr = hashString (normalizedRemote platform remoteAddr) := by
  exact (apply_ite hashString _ _ _).symm

theorem componentBytes_singleton (value : Bytes) :
    componentBytes [value] = uvarint 1 ++ hashString value := by
  simp [componentBytes]

theorem hashComponent_eq (request : Option HashInput)
    (source : HashKeySource) :
    hashComponent platform request source =
      (extract platform request source).map componentBytes := by
  unfold hashComponent extract
  cases source.type with
  | header =>
    cases hvalues : request.bind fun input => input.header.lookup source.name with
    | none => rfl
    | some values =>
      cases values with
      | nil => rfl
      | cons first rest => rfl
  | cookie =>
    rw [Option.map_map]
    exact Option.map_congr fun value _ => (componentBytes_singleton value).symm
  | remoteAddr =>
    cases request with
    | none => rfl
    | some input =>
      by_cases hempty : input.remoteAddr = []
      · simp [hempty]
      · simp [hempty, componentBytes_singleton, hashRemoteAddr_eq]
  | literal => exact congrArg some (componentBytes_singleton source.value).symm
  | other text => rfl

theorem sum64_eq (sources : List HashKeySource)
    (request : Option HashInput) :
    sum64 platform sources request =
      (platform.xxhash (keyBytes platform sources request),
        usesFallback platform sources request) := by
  have hpresent : (sources.any fun source => (hashComponent platform request source).isSome) =
      !usesFallback platform sources request := by
    rw [usesFallback, List.not_all_eq_any_not]
    congr 1
    funext source
    rw [hashComponent_eq]
    cases extract platform request source <;> rfl
  unfold sum64 keyBytes
  rw [hpresent]
  cases usesFallback platform sources request <;> rfl

/-! ## Numbers and strings -/

theorem delimited_uvarintFrom (groups : Nat) :
    DelimitedOn (· < 128 ^ groups) (uvarintFrom groups) := by
  induction groups with
  | zero =>
    intro left right hleft hright leftRest rightRest hsame
    simp only [pow_zero, Nat.lt_one_iff] at hleft hright
    exact ⟨hleft.trans hright.symm, hsame⟩
  | succ groups ih =>
    intro left right hleft hright leftRest rightRest hsame
    have hbyte (value : Nat) (hvalue : value < 256) : (UInt8.ofNat value).toNat = value :=
      UInt8.toNat_ofNat_of_lt hvalue
    rw [pow_succ] at hleft hright
    unfold uvarintFrom at hsame
    -- the continuation bit of the first byte tells the cases apart
    split_ifs at hsame with hl hr hr
    · obtain ⟨hfirst, hrest⟩ := List.cons.inj hsame
      have hnat := congrArg UInt8.toNat hfirst
      rw [hbyte left (by omega), hbyte right (by omega)] at hnat
      exact ⟨hnat, hrest⟩
    · have hnat := congrArg UInt8.toNat (List.cons.inj hsame).1
      rw [hbyte left (by omega), hbyte _ (by omega)] at hnat
      omega
    · have hnat := congrArg UInt8.toNat (List.cons.inj hsame).1
      rw [hbyte _ (by omega), hbyte right (by omega)] at hnat
      omega
    · obtain ⟨hfirst, hrest⟩ := List.cons.inj hsame
      have hnat := congrArg UInt8.toNat hfirst
      rw [hbyte _ (by omega), hbyte _ (by omega)] at hnat
      obtain ⟨hhigh, hends⟩ := ih (left / 128) (right / 128)
        (Nat.div_lt_of_lt_mul (by omega)) (Nat.div_lt_of_lt_mul (by omega)) _ _ hrest
      exact ⟨by omega, hends⟩

/-- Lengths are values of the type `int`. -/
theorem delimited_uvarint : DelimitedOn (· < 2 ^ 63) uvarint := by
  intro left right hleft hright
  exact delimited_uvarintFrom 10 left right (lt_trans hleft (by decide))
    (lt_trans hright (by decide))

theorem delimited_hashString :
    DelimitedOn (fun value : Bytes => value.length < 2 ^ 63) hashString :=
  delimited_uvarint.sized

/-- Values that the program can hold. -/
def Sized (values : List Bytes) : Prop :=
  values.length < 2 ^ 63 ∧ ∀ value ∈ values, value.length < 2 ^ 63

theorem delimited_componentBytes : DelimitedOn Sized componentBytes :=
  delimited_uvarint.counted delimited_hashString

/-! ## Sizes -/

/-- The header values and the remote address of a request are no longer than an
`int` can say. -/
structure HashInput.Sized (platform : Platform) (input : HashInput) : Prop where
  header : ∀ name values, input.header.lookup name = some values → Upstream.Sized values
  remote : (normalizedRemote platform input.remoteAddr).length < 2 ^ 63

variable {value : Bytes} {platform : Platform} {request : Option HashInput}
  {source : HashKeySource} {sources : List HashKeySource}

theorem validCookieValue_length_le {unquoted : Bytes} (h : validCookieValue value = some unquoted) :
    unquoted.length ≤ value.length := by
  unfold validCookieValue at h
  dsimp only at h
  split_ifs at h with hquoted hinvalid
  · rw [← Option.some.inj h, slice, List.length_drop, List.length_take]
    omega
  · rw [← Option.some.inj h]

theorem segmentValue_length_le {target segment : Bytes}
    (h : segmentValue target segment = some value) : value.length ≤ segment.length := by
  unfold segmentValue at h
  dsimp only at h
  split at h
  · contradiction
  split_ifs at h
  have hvalue := validCookieValue_length_le h
  rw [List.length_drop] at hvalue
  have htrim := trimSpace_length_le segment
  omega

theorem firstValidCookie_length_le {headers : List Bytes} {target : Bytes}
    (h : firstValidCookie headers target = some value) :
    ∃ header ∈ headers, value.length ≤ header.length := by
  obtain ⟨header, hheader, hfound⟩ := List.exists_of_findSome?_eq_some h
  obtain ⟨segment, hsegment, hvalue⟩ := List.exists_of_findSome?_eq_some hfound
  exact ⟨header, hheader, (segmentValue_length_le hvalue).trans (mem_of_mem_split segment hsegment).1⟩

theorem sized_singleton (h : value.length < 2 ^ 63) : Sized [value] :=
  ⟨show 1 < 2 ^ 63 by decide, List.forall_mem_singleton.mpr h⟩

/-- What a request gives a source has sizes that the program can hold. -/
theorem sized_extract (hrequest : ∀ input ∈ request, input.Sized platform)
    (hsource : source.type ≠ .literal) {values : List Bytes}
    (h : extract platform request source = some values) : Sized values := by
  cases request with
  | none =>
    unfold extract at h
    cases htype : source.type <;> simp_all
  | some input =>
    have hinput := hrequest input rfl
    unfold extract at h
    cases htype : source.type with
    | header =>
      simp only [htype, Option.bind_some, Option.filter_eq_some_iff] at h
      exact hinput.header _ _ h.1
    | cookie =>
      simp only [htype, Option.bind_some, Option.map_eq_some_iff] at h
      obtain ⟨value, hvalue, rfl⟩ := h
      obtain ⟨header, hheader, hle⟩ := firstValidCookie_length_le hvalue
      cases hlines : input.header.lookup (ascii "Cookie") with
      | none => exact absurd (hlines ▸ hheader) List.not_mem_nil
      | some lines =>
        rw [hlines] at hheader
        have hline := (hinput.header _ _ hlines).2 header hheader
        exact sized_singleton (lt_of_le_of_lt hle hline)
    | remoteAddr =>
      simp only [htype, Option.bind_some] at h
      split_ifs at h
      cases h
      exact sized_singleton hinput.remote
    | literal => exact absurd htype hsource
    | other text => simp [htype] at h

/-! ## Sources -/

/-- The kinds that a compiled source can have. -/
def Known (source : HashKeySource) : Prop :=
  ∀ text, source.type ≠ .other text

theorem known_of_normalizeHashSource {result : HashKeySource} {field upstreamID : Bytes}
    (h : normalizeHashSource source field upstreamID = .ok result) : Known result := by
  obtain ⟨type, name, value⟩ := source
  simp only [normalizeHashSource, bind_eq_ok, require_eq_ok] at h
  obtain ⟨_, _, h⟩ := h
  cases type with
  | header | cookie | remoteAddr | literal =>
    simp only [bind_eq_ok, require_eq_ok] at h
    obtain ⟨_, _, hresult⟩ := h
    cases hresult
    intro text htext
    contradiction
  | other text => contradiction

theorem known_of_normalizeHashSources {upstreamID field : Bytes} {index : Nat}
    {results : List HashKeySource}
    (h : normalizeHashSources upstreamID field index sources = .ok results) :
    results.length = sources.length ∧ ∀ source ∈ results, Known source := by
  induction sources generalizing index results with
  | nil =>
    cases h
    exact ⟨rfl, nofun⟩
  | cons first rest ih =>
    simp only [normalizeHashSources, bind_eq_ok] at h
    obtain ⟨source, hsource, others, hothers, hresult⟩ := h
    cases hresult
    obtain ⟨hlength, hknown⟩ := ih hothers
    exact ⟨congrArg (· + 1) hlength,
      List.forall_mem_cons.mpr ⟨known_of_normalizeHashSource hsource, hknown⟩⟩

theorem known_of_compileHashKey {policy : List HashKeySource}
    (h : compileHashKey policy = .ok sources) :
    sources.length ≤ maxHashKeySources ∧ ∀ source ∈ sources, Known source := by
  simp only [compileHashKey, bind_eq_ok, require_eq_ok, decide_eq_true_eq] at h
  obtain ⟨_, hlength, hsources⟩ := h
  obtain ⟨hsame, hknown⟩ := known_of_normalizeHashSources hsources
  exact ⟨hsame ▸ hlength.2, hknown⟩

theorem writeSource_eq (hknown : Known source) :
    writeSource platform request source =
      hashSourceTag source.type ::
        match extract platform request source with
        | none => 0 :: uvarint 0
        | some values => 1 :: componentBytes values := by
  unfold writeSource
  rw [hashComponent_eq]
  cases htype : source.type with
  | other text => exact absurd htype (hknown text)
  | header | cookie | remoteAddr | literal =>
    cases extract platform request source <;> rfl

/-- What a source writes gives its component back, and what follows. -/
theorem writeSource_inj {left right : Option HashInput}
    (hleft : ∀ input ∈ left, input.Sized platform)
    (hright : ∀ input ∈ right, input.Sized platform) (hknown : Known source)
    {leftRest rightRest : Bytes}
    (h : writeSource platform left source ++ leftRest =
      writeSource platform right source ++ rightRest) :
    extract platform left source = extract platform right source ∧ leftRest = rightRest := by
  by_cases hliteral : source.type = .literal
  · -- a literal is written from the configuration
    have hsame : extract platform left source = extract platform right source := by
      simp only [extract, hliteral]
    rw [writeSource_eq hknown, writeSource_eq hknown, hsame] at h
    exact ⟨hsame, List.append_cancel_left h⟩
  · rw [writeSource_eq hknown, writeSource_eq hknown, List.cons_append, List.cons_append] at h
    have hbody := (List.cons.inj h).2
    cases hl : extract platform left source with
    | none =>
      cases hr : extract platform right source with
      | none =>
        rw [hl, hr] at hbody
        exact ⟨rfl, List.append_cancel_left hbody⟩
      | some values =>
        rw [hl, hr] at hbody
        exact absurd (List.cons.inj hbody).1 (by decide)
    | some values =>
      cases hr : extract platform right source with
      | none =>
        rw [hl, hr] at hbody
        exact absurd (List.cons.inj hbody).1 (by decide)
      | some others =>
        rw [hl, hr] at hbody
        obtain ⟨rfl, hrest⟩ := delimited_componentBytes values others
          (sized_extract hleft hliteral hl) (sized_extract hright hliteral hr) _ _
          (List.cons.inj hbody).2
        exact ⟨rfl, hrest⟩

theorem writeSources_inj {left right : Option HashInput}
    (hleft : ∀ input ∈ left, input.Sized platform)
    (hright : ∀ input ∈ right, input.Sized platform) (hknown : ∀ source ∈ sources, Known source)
    (h : sources.flatMap (writeSource platform left) =
      sources.flatMap (writeSource platform right)) :
    ∀ source ∈ sources, extract platform left source = extract platform right source := by
  induction sources with
  | nil => exact nofun
  | cons source rest ih =>
    rw [List.forall_mem_cons] at hknown
    rw [List.flatMap_cons, List.flatMap_cons] at h
    obtain ⟨hsame, hrest⟩ := writeSource_inj hleft hright hknown.1 h
    exact List.forall_mem_cons.mpr ⟨hsame, ih hknown.2 hrest⟩

theorem writeSources_congr {left right : Option HashInput}
    (hknown : ∀ source ∈ sources, Known source)
    (h : ∀ source ∈ sources, extract platform left source = extract platform right source) :
    sources.flatMap (writeSource platform left) = sources.flatMap (writeSource platform right) := by
  refine List.flatMap_congr fun source hsource => ?_
  rw [writeSource_eq (hknown source hsource), writeSource_eq (hknown source hsource),
    h source hsource]

/-! ## The fallback -/

theorem fallbackBytes_eq (platform : Platform) (request : Option HashInput) :
    fallbackBytes platform request =
      uvarint 1 ++ 3 :: 1 :: (uvarint 1 ++ hashString (remoteOf platform request)) := by
  unfold fallbackBytes remoteOf
  cases request with
  | none => rfl
  | some input =>
    dsimp only
    rw [hashRemoteAddr_eq]
    rfl

theorem remoteOf_length (h : ∀ input ∈ request, input.Sized platform) :
    (remoteOf platform request).length < 2 ^ 63 := by
  cases request with
  | none => exact (by decide : 0 < 2 ^ 63)
  | some input => exact (h input rfl).remote

theorem normalizedRemote_ne_nil
    (hprints : ∀ host, validAddr host = true → platform.unmapAddr host ≠ []) {remoteAddr : Bytes}
    (h : remoteAddr ≠ []) : normalizedRemote platform remoteAddr ≠ [] := by
  unfold normalizedRemote
  dsimp only
  split_ifs with hvalid
  · exact hprints _ hvalid
  · exact h

theorem extract_present (htype : source.type = .remoteAddr)
    (h : (extract platform request source).isNone = false) :
    ∃ remoteAddr, remoteAddr ≠ [] ∧
      extract platform request source = some [normalizedRemote platform remoteAddr] := by
  unfold extract at h ⊢
  simp only [htype] at h ⊢
  cases request with
  | none => exact absurd h (by simp)
  | some input =>
    by_cases hempty : input.remoteAddr = []
    · simp [hempty] at h
    · exact ⟨input.remoteAddr, hempty, if_neg hempty⟩

theorem remoteOf_absent (htype : source.type = .remoteAddr)
    (h : (extract platform request source).isNone = true) : remoteOf platform request = [] := by
  unfold extract at h
  simp only [htype] at h
  cases request with
  | none => rfl
  | some input =>
    by_cases hempty : input.remoteAddr = []
    · rw [remoteOf, hempty]
      rfl
    · simp [hempty] at h

/-- A key with a component is not the key of a fallback. -/
theorem sources_ne_fallback
    (hprints : ∀ host, validAddr host = true → platform.unmapAddr host ≠ [])
    (hlength : sources.length ≤ maxHashKeySources) (hknown : ∀ source ∈ sources, Known source)
    {present absent : Option HashInput} (hpresent : ∀ input ∈ present, input.Sized platform)
    (hkey : usesFallback platform sources present = false)
    (hfallback : usesFallback platform sources absent = true) :
    uvarint sources.length ++ sources.flatMap (writeSource platform present) ≠
      fallbackBytes platform absent := by
  intro hsame
  rw [fallbackBytes_eq] at hsame
  have hbound : sources.length < 2 ^ 63 := lt_of_le_of_lt hlength (by decide)
  obtain ⟨hone, hrest⟩ := delimited_uvarint _ _ hbound (by decide) _ _ hsame
  obtain ⟨source, rfl⟩ := List.length_eq_one_iff.mp hone
  have hsource := hknown source List.mem_cons_self
  rw [List.flatMap_singleton, writeSource_eq hsource] at hrest
  obtain ⟨htag, hrest⟩ := List.cons.inj hrest
  -- the tag of the fallback is that of a remote address
  have htype : source.type = .remoteAddr := by
    cases htype : source.type with
    | remoteAddr => rfl
    | header | cookie | literal => rw [htype] at htag; exact absurd htag (by decide)
    | other text => exact absurd htype (hsource text)
  simp only [usesFallback, List.all_cons, List.all_nil, Bool.and_true] at hkey hfallback
  obtain ⟨remoteAddr, hne, hvalues⟩ := extract_present htype hkey
  have hempty : remoteOf platform absent = [] := remoteOf_absent htype hfallback
  rw [hvalues] at hrest
  change 1 :: componentBytes [normalizedRemote platform remoteAddr] = _ at hrest
  rw [componentBytes_singleton, hempty] at hrest
  have hstrings := List.append_cancel_left (List.cons.inj hrest).2
  have hsized : (normalizedRemote platform remoteAddr).length < 2 ^ 63 :=
    (sized_extract hpresent (by simp [htype]) hvalues).2 _ List.mem_cons_self
  have hnil := (delimited_hashString _ [] hsized (by decide) [] [] (by rw [hstrings])).1
  exact normalizedRemote_ne_nil hprints hne hnil

/-- The bytes fed to the digest for two requests are equal exactly when both
requests fall back and have the same normalized remote address, or neither does
and every source extracts the same component from both. -/
theorem hash_keys_unambiguous (platform : Platform)
    (hprints : ∀ host, validAddr host = true → platform.unmapAddr host ≠ [])
    (policy sources : List HashKeySource) (h : compileHashKey policy = .ok sources)
    (left right : Option HashInput) (hleft : ∀ input ∈ left, input.Sized platform)
    (hright : ∀ input ∈ right, input.Sized platform) :
    (keyBytes platform sources left = keyBytes platform sources right ↔
      (usesFallback platform sources left = true ∧ usesFallback platform sources right = true ∧
        remoteOf platform left = remoteOf platform right) ∨
      (usesFallback platform sources left = false ∧ usesFallback platform sources right = false ∧
        ∀ source ∈ sources, extract platform left source = extract platform right source)) ∧
    ∀ request, sum64 platform sources request =
      (platform.xxhash (keyBytes platform sources request),
        usesFallback platform sources request) := by
  obtain ⟨hlength, hknown⟩ := known_of_compileHashKey h
  refine ⟨?_, sum64_eq platform sources⟩
  unfold keyBytes
  cases hl : usesFallback platform sources left with
  | true =>
    cases hr : usesFallback platform sources right with
    | true =>
      rw [if_pos rfl, if_pos rfl, fallbackBytes_eq, fallbackBytes_eq]
      constructor
      · intro hsame
        have hstrings := List.append_cancel_left
          (List.cons.inj (List.cons.inj (List.append_cancel_left hsame)).2).2
        refine .inl ⟨rfl, rfl, (delimited_hashString _ _ (remoteOf_length hleft)
          (remoteOf_length hright) [] [] ?_).1⟩
        rw [hstrings]
      · rintro (⟨-, -, hsame⟩ | ⟨hfalse, -⟩)
        · rw [hsame]
        · exact absurd hfalse (by decide)
    | false =>
      rw [if_pos rfl, if_neg Bool.false_ne_true]
      refine iff_of_false (fun hsame => ?_) (by simp)
      exact sources_ne_fallback hprints hlength hknown hright hr hl hsame.symm
  | false =>
    cases hr : usesFallback platform sources right with
    | true =>
      rw [if_neg Bool.false_ne_true, if_pos rfl]
      refine iff_of_false (fun hsame => ?_) (by simp)
      exact sources_ne_fallback hprints hlength hknown hleft hl hr hsame
    | false =>
      rw [if_neg Bool.false_ne_true, if_neg Bool.false_ne_true]
      constructor
      · intro hsame
        exact .inr ⟨rfl, rfl,
          writeSources_inj hleft hright hknown (List.append_cancel_left hsame)⟩
      · rintro (⟨hfalse, -⟩ | ⟨-, -, hsame⟩)
        · exact absurd hfalse (by decide)
        · rw [writeSources_congr hknown hsame]

/-- A request with one header, from a fixed address. -/
def headerInput (values : List Bytes) : HashInput where
  header := ⟨[(ascii "X-Key", values)], List.nodup_singleton _⟩
  remoteAddr := ascii "10.0.0.1:4000"

theorem headerInput_sized {values : List Bytes} (h : Sized values) :
    (headerInput values).Sized samplePlatform where
  header name found hfound := by
    change [(ascii "X-Key", values)].lookup name = some found at hfound
    rw [List.lookup_cons] at hfound
    split at hfound
    · exact Option.some.inj hfound ▸ h
    · exact nomatch hfound
  remote := show (ascii "10.0.0.1").length < 2 ^ 63 by decide

/-- Two values are not the one value that they make up together. -/
theorem hash_keys_unambiguous_split :
    ∃ sources, compileHashKey [⟨.header, ascii "x-key", []⟩] = .ok sources ∧
      keyBytes samplePlatform sources (some (headerInput [ascii "a", ascii "b"])) ≠
        keyBytes samplePlatform sources (some (headerInput [ascii "ab"])) := by
  have hcompiled : compileHashKey [⟨.header, ascii "x-key", []⟩] =
      .ok [⟨.header, ascii "X-Key", []⟩] := rfl
  have hprints : ∀ host, validAddr host = true → samplePlatform.unmapAddr host ≠ [] := by
    rintro host hvalid rfl
    exact absurd hvalid (by decide)
  have hsplit : Sized [ascii "a", ascii "b"] := by unfold Sized; decide
  have hjoined : Sized [ascii "ab"] := by unfold Sized; decide
  refine ⟨_, hcompiled, fun hsame => ?_⟩
  have hkeys := (hash_keys_unambiguous samplePlatform hprints _ _ hcompiled _ _
    (by rintro _ ⟨⟩; exact headerInput_sized hsplit)
    (by rintro _ ⟨⟩; exact headerInput_sized hjoined)).1.mp hsame
  rcases hkeys with ⟨hfallback, -⟩ | ⟨-, -, hcomponents⟩
  · exact absurd hfallback (by decide)
  · exact absurd (hcomponents _ List.mem_cons_self) (by decide)

end GGateway.Upstream
