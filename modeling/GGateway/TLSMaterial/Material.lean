import GGateway.Library.PrefixCode
import GGateway.Library.SortedSet
import GGateway.Upstream.Profile

/-!
# TLS material

`internal/tlsmaterial/material.go`: how PEM becomes the CA set of a trust bundle or the
chain of a certificate, and the fingerprint that stands for it.

* `NewTrustBundle` keeps each certificate once and sorts them, so that the documents, and
  with them the fingerprint, depend on the set of certificates only
* the fingerprint is the digest of the length-prefixed documents, which can be read back
  from what is digested (`fingerprintInput_inj`)
-/

namespace GGateway.TLSMaterial

open Text Model Library Library.Checks Library.PrefixCode Library.SortedSet
open Upstream (bigEndian)

/-! ## The model -/

/-- A part of an error text; `quoted` is printed by `%q`. -/
inductive Piece where
  | text (bytes : Bytes)
  | quoted (bytes : Bytes)
  deriving DecidableEq, Repr

abbrev Message := List Piece

structure Block where
  type : Bytes
  bytes : Bytes

/-- `pem.Decode`, which consumes what it decodes, `x509.ParseCertificate`, up to the raw
document, and `tls.X509KeyPair`, up to the chain and the key. -/
structure Codec where
  decode : Bytes → Option (Block × Bytes)
  shrinks : ∀ rest block remaining, decode rest = some (block, remaining) →
    remaining.length < rest.length
  parseCertificate : Bytes → Except Bytes Document
  keyPair : Bytes → Bytes → Except Bytes (List Document × Bytes)

def writeLengthPrefixed (value : Bytes) : Bytes :=
  bigEndian 8 (value.length % 2 ^ 64) ++ value

/-- What the digest is fed with. -/
def fingerprintInput (domain : Bytes) (documents : List Document) : Bytes :=
  writeLengthPrefixed domain ++ documents.flatMap fun document => writeLengthPrefixed document.val

def fingerprint (sha256 : Bytes → Bytes) (domain : Bytes) (documents : List Document) : Bytes :=
  sha256 (fingerprintInput domain documents)

def certificateDomain : Bytes :=
  ascii "gateway/certificate/v1"

def trustBundleDomain : Bytes :=
  ascii "gateway/trust-bundle/v1"

/-- `unique[string(certificate.Raw)] = certificate`; the order of a map has no meaning. -/
def record (certificate : Document) (unique : List Document) : List Document :=
  if certificate ∈ unique then unique else certificate :: unique

/-- The loop over the PEM blocks.  Every turn consumes some input, so that the fuel does
not run out if it exceeds the length of the input. -/
def readBundle (codec : Codec) (id : Bytes) :
    Nat → Bytes → List Document → Except Message (List Document)
  | 0, _, unique => .ok unique
  | fuel + 1, rest, unique =>
    match codec.decode rest with
    | none =>
      if trimSpace rest ≠ [] then
        .error [.text (ascii "parse trust bundle "), .quoted id,
          .text (ascii ": malformed PEM data")]
      else .ok unique
    | some (block, remaining) =>
      if block.type ≠ ascii "CERTIFICATE" then
        .error [.text (ascii "parse trust bundle "), .quoted id, .text (ascii ": PEM block "),
          .quoted block.type, .text (ascii " is not a certificate")]
      else
        match codec.parseCertificate block.bytes with
        | .error cause =>
          .error [.text (ascii "parse trust bundle "), .quoted id,
            .text (ascii " certificate: " ++ cause)]
        | .ok certificate => readBundle codec id fuel remaining (record certificate unique)

/-- The order of `bytes.Compare`. -/
def below (left right : Document) : Prop :=
  left.val ≤ right.val

instance : DecidableRel below :=
  fun left right => inferInstanceAs (Decidable (left.val ≤ right.val))

def newTrustBundle (sha256 : Bytes → Bytes) (codec : Codec) (id caPEM : Bytes) :
    Except Message Material := do
  require (id ≠ [] ∧ trimSpace id = id)
    [.text (ascii "trust bundle id must be non-empty without surrounding whitespace")]
  let unique ← readBundle codec id (caPEM.length + 1) caPEM []
  require (unique ≠ [])
    [.text (ascii "parse trust bundle "), .quoted id, .text (ascii ": CA set is empty")]
  let documents := unique.insertionSort below
  pure ⟨id, fingerprint sha256 trustBundleDomain documents, documents, []⟩

/-- The loop over the elements of a chain, which must all parse. -/
def checkChain (codec : Codec) (id : Bytes) : Nat → List Document → Except Message Unit
  | _, [] => .ok ()
  | index, document :: rest =>
    match codec.parseCertificate document.val with
    | .error cause =>
      .error [.text (ascii "parse certificate "), .quoted id,
        .text (ascii " chain element " ++ Upstream.decimal index ++ ascii ": " ++ cause)]
    | .ok _ => checkChain codec id (index + 1) rest

def newCertificate (sha256 : Bytes → Bytes) (codec : Codec)
    (id certificatePEM privateKeyPEM : Bytes) : Except Message Material := do
  require (id ≠ [] ∧ trimSpace id = id)
    [.text (ascii "certificate id must be non-empty without surrounding whitespace")]
  let (documents, privateKey) ← (codec.keyPair certificatePEM privateKeyPEM).mapError fun cause =>
    [.text (ascii "parse certificate "), .quoted id, .text (ascii ": " ++ cause)]
  require (documents ≠ [])
    [.text (ascii "parse certificate "), .quoted id, .text (ascii ": certificate chain is empty")]
  checkChain codec id 0 documents
  pure ⟨id, fingerprint sha256 certificateDomain documents, documents, privateKey⟩

/-! ## Fingerprints -/

theorem bigEndian_length (width value : Nat) : (bigEndian width value).length = width := by
  induction width with
  | zero => rfl
  | succ width ih => rw [bigEndian, List.length_cons, ih]

/-- The bytes determine the value up to their number. -/
theorem mod_eq_of_bigEndian {width left right : Nat}
    (h : bigEndian width left = bigEndian width right) :
    left % 256 ^ width = right % 256 ^ width := by
  induction width with
  | zero => simp [Nat.mod_one]
  | succ width ih =>
    rw [bigEndian, bigEndian, List.cons.injEq] at h
    have hhead : left / 256 ^ width % 256 = right / 256 ^ width % 256 := by
      have hbytes := congrArg UInt8.toNat h.1
      simpa using hbytes
    have htail := ih h.2
    rw [pow_succ, Nat.mod_mul, Nat.mod_mul, hhead, htail]

theorem bigEndian_inj {width left right : Nat} (hleft : left < 256 ^ width)
    (hright : right < 256 ^ width) (h : bigEndian width left = bigEndian width right) :
    left = right := by
  have hmod := mod_eq_of_bigEndian h
  rwa [Nat.mod_eq_of_lt hleft, Nat.mod_eq_of_lt hright] at hmod

/-- A document is read back from its length and its bytes. -/
theorem delimited_document :
    Delimited fun document : Document => writeLengthPrefixed document.val := by
  apply delimited_framed
  · intro left right
    rw [bigEndian_length, bigEndian_length]
  · intro left right hsize
    have hleft := left.property
    have hright := right.property
    have hlengths := bigEndian_inj (by omega) (by omega) hsize
    omega
  · exact Subtype.val_injective

/-- What is digested determines the documents. -/
theorem fingerprintInput_inj {domain : Bytes} {left right : List Document}
    (h : fingerprintInput domain left = fingerprintInput domain right) : left = right := by
  apply delimited_document.flatMap_injective
  · intro document hempty
    have hlength := congrArg List.length hempty
    rw [writeLengthPrefixed, List.length_append, bigEndian_length, List.length_nil] at hlength
    omega
  · exact List.append_cancel_left h

/-! ## The CA set -/

/-- The certificate is one of those in the PEM text. -/
inductive InPEM (codec : Codec) (document : Document) : Bytes → Prop where
  | here {rest remaining : Bytes} {block : Block}
      (hdecode : codec.decode rest = some (block, remaining))
      (hparse : codec.parseCertificate block.bytes = .ok document) : InPEM codec document rest
  | later {rest remaining : Bytes} {block : Block}
      (hdecode : codec.decode rest = some (block, remaining))
      (hrest : InPEM codec document remaining) : InPEM codec document rest

section Bundles

variable {codec : Codec} {id : Bytes}

theorem mem_record {certificate document : Document} {unique : List Document} :
    document ∈ record certificate unique ↔ document = certificate ∨ document ∈ unique := by
  unfold record
  split_ifs with hmem
  · constructor
    · exact Or.inr
    · rintro (rfl | hold)
      · exact hmem
      · exact hold
  · exact List.mem_cons

theorem nodup_record {certificate : Document} {unique : List Document} (h : unique.Nodup) :
    (record certificate unique).Nodup := by
  unfold record
  split_ifs with hmem
  · exact h
  · exact List.nodup_cons.mpr ⟨hmem, h⟩

/-- The loop adds the certificates of the text, each once. -/
theorem readBundle_spec {fuel : Nat} {rest : Bytes} {unique result : List Document}
    (h : readBundle codec id fuel rest unique = .ok result) (hfuel : rest.length < fuel)
    (hunique : unique.Nodup) :
    result.Nodup ∧ ∀ document, document ∈ result ↔ document ∈ unique ∨ InPEM codec document rest := by
  induction fuel generalizing rest unique with
  | zero => omega
  | succ fuel ih =>
    rw [readBundle] at h
    cases hdecode : codec.decode rest with
    | none =>
      rw [hdecode] at h
      split_ifs at h
      cases h
      refine ⟨hunique, fun document => ⟨Or.inl, ?_⟩⟩
      rintro (hold | hin)
      · exact hold
      · cases hin with
        | here hblock _ | later hblock _ =>
          rw [hdecode] at hblock
          contradiction
    | some decoded =>
      obtain ⟨block, remaining⟩ := decoded
      rw [hdecode] at h
      dsimp only at h
      split_ifs at h
      split at h
      · contradiction
      rename_i certificate hparse
      have hshorter := codec.shrinks rest block remaining hdecode
      obtain ⟨hnodup, hmem⟩ := ih h (by omega) (nodup_record hunique)
      refine ⟨hnodup, fun document => ?_⟩
      rw [hmem, mem_record]
      constructor
      · rintro ((rfl | hold) | hlater)
        · exact Or.inr (.here hdecode hparse)
        · exact Or.inl hold
        · exact Or.inr (.later hdecode hlater)
      · rintro (hold | hin)
        · exact Or.inl (Or.inr hold)
        · cases hin with
          | here hblock hfound =>
            rw [hdecode] at hblock
            cases hblock
            rw [hparse] at hfound
            exact Or.inl (Or.inl (Except.ok.inj hfound).symm)
          | later hblock hlater =>
            rw [hdecode] at hblock
            cases hblock
            exact Or.inr hlater

instance : Std.Total below :=
  ⟨fun left right => le_total left.val right.val⟩

instance : IsTrans Document below :=
  ⟨fun _ _ _ => le_trans⟩

instance : Std.Antisymm below :=
  ⟨fun _ _ hle hge => Subtype.ext (le_antisymm hle hge)⟩

variable {sha256 : Bytes → Bytes} {caPEM : Bytes} {bundle : Material}

/-- A trust bundle holds the certificates of its text, in the order of their bytes. -/
theorem newTrustBundle_spec (h : newTrustBundle sha256 codec id caPEM = .ok bundle) :
    bundle.id = id ∧ bundle.fingerprint = fingerprint sha256 trustBundleDomain bundle.documents ∧
      bundle.documents.Pairwise below ∧ bundle.documents.Nodup ∧
      ∀ document, document ∈ bundle.documents ↔ InPEM codec document caPEM := by
  simp only [newTrustBundle, bind_eq_ok, require_eq_ok] at h
  obtain ⟨_, _, unique, hunique, _, _, hbundle⟩ := h
  cases hbundle
  obtain ⟨hnodup, hmem⟩ := readBundle_spec hunique (Nat.lt_succ_self _) List.nodup_nil
  refine ⟨rfl, rfl, List.pairwise_insertionSort below unique, ?_, ?_⟩
  · exact (List.perm_insertionSort below unique).nodup_iff.mpr hnodup
  · intro document
    rw [List.mem_insertionSort, hmem]
    simp

end Bundles

theorem newCertificate_spec {sha256 : Bytes → Bytes} {codec : Codec}
    {id certificatePEM privateKeyPEM : Bytes} {certificate : Material}
    (h : newCertificate sha256 codec id certificatePEM privateKeyPEM = .ok certificate) :
    certificate.id = id ∧
      certificate.fingerprint = fingerprint sha256 certificateDomain certificate.documents ∧
      codec.keyPair certificatePEM privateKeyPEM =
        .ok (certificate.documents, certificate.privateKey) := by
  simp only [newCertificate, bind_eq_ok, require_eq_ok, mapError_eq_ok] at h
  obtain ⟨_, _, ⟨documents, privateKey⟩, hpair, _, _, _, _, hcertificate⟩ := h
  cases hcertificate
  exact ⟨rfl, rfl, hpair⟩

end GGateway.TLSMaterial
