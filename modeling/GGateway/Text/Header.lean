import GGateway.Library.Assoc
import GGateway.Text.Bytes

/-!
# Header maps

`http.Header` is a map from field names to value lists.  A map is kept as its
entries in one iteration order together with the proof that no key repeats; two
maps are the same when their entries are permutations of each other.  `Values`,
`Del` and `Set` go through the canonical key of a name; what an upstream sees is
the values of every key that spells the name.
-/

namespace GGateway.Text

open Library

/-- `http.Header`. -/
structure Header where
  entries : List (Bytes × List Bytes)
  nodup : Assoc.Keyed entries

namespace Header

/-- `http.Header{}`. -/
def empty : Header :=
  ⟨[], Assoc.keyed_nil⟩

/-- `header[name]`, with `none` for an absent key. -/
def lookup (header : Header) (name : Bytes) : Option (List Bytes) :=
  header.entries.lookup name

/-- The two headers are the same map, possibly iterated in another order. -/
def SameMap (left right : Header) : Prop :=
  left.entries.Perm right.entries

end Header

/-- The loop of `canonicalMIMEHeaderKey`: upper case at the start and after a
hyphen, lower case elsewhere. -/
def canonicalizeFrom : Bool → Bytes → Bytes
  | _, [] => []
  | upper, byte :: rest =>
    let mapped :=
      if upper && isLowerLetter byte then byte - 32
      else if !upper && isUpperLetter byte then byte + 32
      else byte
    mapped :: canonicalizeFrom (mapped == 45) rest

/-- `textproto.CanonicalMIMEHeaderKey`: a key with a byte outside the token
grammar is returned unchanged. -/
def canonicalMIMEHeaderKey (s : Bytes) : Bytes :=
  if s.all isTokenByte then canonicalizeFrom true s else s

example : canonicalMIMEHeaderKey (ascii "x-forwarded-FOR") = ascii "X-Forwarded-For" := by decide
example : canonicalMIMEHeaderKey (ascii "x y") = ascii "x y" := by decide

/-- Looking a key up does not depend on the iteration order. -/
theorem Header.lookup_eq_of_sameMap {left right : Header} (h : left.SameMap right)
    (name : Bytes) : left.lookup name = right.lookup name :=
  Assoc.lookup_eq_of_perm h left.nodup name

/-- Maps with the same values at every key are the same. -/
theorem Header.sameMap_of_lookup {left right : Header}
    (h : ∀ key, left.lookup key = right.lookup key) : left.SameMap right := by
  refine (List.perm_ext_iff_of_nodup left.nodup.of_map right.nodup.of_map).mpr ?_
  rintro ⟨key, values⟩
  rw [← Assoc.lookup_eq_some_iff left.nodup, ← Assoc.lookup_eq_some_iff right.nodup]
  have hkey : left.entries.lookup key = right.entries.lookup key := h key
  rw [hkey]

namespace Header

/-- `Header.Values`. -/
def values (header : Header) (name : Bytes) : List Bytes :=
  (header.lookup (canonicalMIMEHeaderKey name)).getD []

/-- `Header.Del`. -/
def del (header : Header) (name : Bytes) : Header :=
  ⟨Assoc.erase (canonicalMIMEHeaderKey name) header.entries, Assoc.keyed_erase header.nodup⟩

/-- `Header.Set`. -/
def set (header : Header) (name value : Bytes) : Header :=
  ⟨Assoc.upsert (canonicalMIMEHeaderKey name) (fun _ => [value]) header.entries,
    Assoc.keyed_upsert header.nodup⟩

/-- `Header.Add`. -/
def add (header : Header) (name value : Bytes) : Header :=
  ⟨Assoc.upsert (canonicalMIMEHeaderKey name) (fun old => old.getD [] ++ [value]) header.entries,
    Assoc.keyed_upsert header.nodup⟩

/-- `header[key] = values`, at the key as it is spelled. -/
def assign (header : Header) (key : Bytes) (values : List Bytes) : Header :=
  ⟨Assoc.upsert key (fun _ => values) header.entries, Assoc.keyed_upsert header.nodup⟩

theorem lookup_del (header : Header) (name key : Bytes) :
    (header.del name).lookup key =
      if key = canonicalMIMEHeaderKey name then none else header.lookup key := by
  split_ifs with hkey
  · subst hkey
    exact Assoc.lookup_erase_self _ header.entries
  · exact Assoc.lookup_erase_of_ne hkey header.entries

theorem lookup_set (header : Header) (name value key : Bytes) :
    (header.set name value).lookup key =
      if key = canonicalMIMEHeaderKey name then some [value] else header.lookup key := by
  split_ifs with hkey
  · subst hkey
    exact Assoc.lookup_upsert_self _ _ header.entries
  · exact Assoc.lookup_upsert_of_ne hkey _ header.entries

theorem lookup_assign (header : Header) (name : Bytes) (values : List Bytes) (key : Bytes) :
    (header.assign name values).lookup key =
      if key = name then some values else header.lookup key := by
  split_ifs with hkey
  · subst hkey
    exact Assoc.lookup_upsert_self _ _ header.entries
  · exact Assoc.lookup_upsert_of_ne hkey _ header.entries

theorem lookup_foldl_del (names : List Bytes) (header : Header) (key : Bytes) :
    (names.foldl del header).lookup key =
      if key ∈ names.map canonicalMIMEHeaderKey then none else header.lookup key := by
  induction names generalizing header with
  | nil => simp
  | cons name rest ih =>
    rw [List.foldl_cons, ih, lookup_del, List.map_cons]
    by_cases hrest : key ∈ rest.map canonicalMIMEHeaderKey
    · rw [if_pos hrest, if_pos (List.mem_cons_of_mem _ hrest)]
    by_cases hname : key = canonicalMIMEHeaderKey name
    · rw [if_neg hrest, if_pos hname, if_pos (hname ▸ List.mem_cons_self)]
    · rw [if_neg hrest, if_neg hname, if_neg (by simp [hname, hrest])]

/-- Write the fields that have a value, one after the other. -/
def setFields (header : Header) (fields : List (Bytes × Option Bytes)) : Header :=
  fields.foldl (fun header field => field.2.elim header (header.set field.1)) header

theorem lookup_setFields_of_not_mem {fields : List (Bytes × Option Bytes)} {key : Bytes}
    (h : key ∉ fields.map fun field => canonicalMIMEHeaderKey field.1) (header : Header) :
    (header.setFields fields).lookup key = header.lookup key := by
  induction fields generalizing header with
  | nil => rfl
  | cons field rest ih =>
    obtain ⟨name, value⟩ := field
    rw [List.map_cons, List.mem_cons, not_or] at h
    rw [setFields, List.foldl_cons, ← setFields, ih h.2]
    cases value with
    | none => rfl
    | some value => exact (header.lookup_set name value key).trans (if_neg h.1)

/-- Fields with different keys that are absent before have their values afterwards. -/
theorem lookup_setFields {fields : List (Bytes × Option Bytes)}
    (hkeys : (fields.map fun field => canonicalMIMEHeaderKey field.1).Nodup) {header : Header}
    (habsent : ∀ field ∈ fields, header.lookup (canonicalMIMEHeaderKey field.1) = none) :
    ∀ field ∈ fields, (header.setFields fields).lookup (canonicalMIMEHeaderKey field.1) =
      field.2.map fun value => [value] := by
  induction fields generalizing header with
  | nil => simp
  | cons first rest ih =>
    obtain ⟨name, value⟩ := first
    rw [List.map_cons, List.nodup_cons] at hkeys
    rw [List.forall_mem_cons] at habsent
    rw [setFields, List.foldl_cons, ← setFields, List.forall_mem_cons]
    constructor
    · -- The later fields have other keys.
      rw [lookup_setFields_of_not_mem hkeys.1]
      cases value with
      | none => exact habsent.1
      | some value => exact (header.lookup_set name value _).trans (if_pos rfl)
    · refine ih hkeys.2 fun field hfield => ?_
      have hne : canonicalMIMEHeaderKey field.1 ≠ canonicalMIMEHeaderKey name := fun hsame =>
        hkeys.1 (hsame ▸ List.mem_map_of_mem hfield)
      cases value with
      | none => exact habsent.2 field hfield
      | some value =>
        exact ((header.lookup_set name value _).trans (if_neg hne)).trans
          (habsent.2 field hfield)

end Header

/-- What is read of a server's `http.Request`.  `tls` says that the connection has a TLS
state, `hasBody` that the body is neither nil nor `http.NoBody`. -/
structure ServerRequest where
  protoMajor : Int
  protoMinor : Int
  method : Bytes
  host : Bytes
  remoteAddr : Bytes
  tls : Bool
  header : Header
  contentLength : Int
  hasBody : Bool

end GGateway.Text
