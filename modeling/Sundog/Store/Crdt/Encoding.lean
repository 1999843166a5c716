import Sundog.Lib.Listing
import Sundog.Store.Crdt.OrSet
import Sundog.Store.Crdt.PnCounter

/-!
# The encoding of the merging values

A counter or a set is encoded field by field, each map as its entries in key
order.  What the codec sees of a value is therefore the listings of its maps:
its image.  Two values with one image are the same value and have the same
bytes.  The codec itself is a parameter, of which only the round trip is used.
-/

namespace Sundog

open Lib

namespace WriterId

def key (w : WriterId) : NodeId ×ₗ Nat :=
  toLex (w.node, w.incarnation)

theorem key_injective : Function.Injective key := by
  intro a b h
  cases a
  cases b
  simpa [key] using h

end WriterId

/-- A serializer and its deserializer, either of which may refuse. -/
structure Codec (shape : Type) where
  toVec : shape -> Option Bytes
  fromBytes : Bytes -> Option shape

def Codec.RoundTrips {shape : Type} (codec : Codec shape) : Prop :=
  forall x bytes, codec.toVec x = some bytes -> codec.fromBytes bytes = some x

def Codec.single {shape : Type} [DecidableEq shape] (known : shape)
    (bytes : Bytes) : Codec shape where
  toVec := fun x => if x = known then some bytes else none
  fromBytes := fun b => if b = bytes then some known else none

theorem Codec.single_roundTrips {shape : Type} [DecidableEq shape]
    (known : shape) (bytes : Bytes) : (single known bytes).RoundTrips := by
  intro x b h
  simp only [single] at h ⊢
  split at h
  · next hx =>
      rw [Option.some.injEq] at h
      rw [if_pos h.symm, hx]
  · cases h

theorem Codec.single_toVec {shape : Type} [DecidableEq shape] (known : shape)
    (bytes : Bytes) : (single known bytes).toVec known = some bytes :=
  if_pos rfl

/-!
## Counters
-/

structure CounterImage where
  p : List (WriterId × Nat)
  n : List (WriterId × Nat)
  retired : List (WriterId × Retired)
  foldedP : Nat
  foldedN : Nat
  foldedAt : List (WriterId × Nat)
deriving DecidableEq

namespace PnCounter

def image (c : PnCounter) : CounterImage where
  p := KeyMap.listing WriterId.key c.p
  n := KeyMap.listing WriterId.key c.n
  retired := KeyMap.listing WriterId.key c.retired
  foldedP := c.foldedP
  foldedN := c.foldedN
  foldedAt := KeyMap.listing WriterId.key c.foldedAt

def ofImage (i : CounterImage) : PnCounter where
  p := KeyMap.ofList i.p
  n := KeyMap.ofList i.n
  retired := KeyMap.ofList i.retired
  foldedP := i.foldedP
  foldedN := i.foldedN
  foldedAt := KeyMap.ofList i.foldedAt

def encode (postcard : Codec CounterImage) (c : PnCounter) : Option Bytes :=
  postcard.toVec c.image

def liveAndRetired (c : PnCounter) : Bool :=
  (c.p.keys ++ c.n.keys).any fun w => decide (w ∈ c.retired)

def decode (postcard : Codec CounterImage) (bytes : Bytes) :
    Option PnCounter :=
  match postcard.fromBytes bytes with
  | none => none
  | some i => if (ofImage i).liveAndRetired then none else some (ofImage i)

theorem image_congr {c c' : PnCounter}
    (hp : forall w, c.p.lookup w = c'.p.lookup w)
    (hn : forall w, c.n.lookup w = c'.n.lookup w)
    (hretired : forall w, c.retired.lookup w = c'.retired.lookup w)
    (hfoldedP : c.foldedP = c'.foldedP) (hfoldedN : c.foldedN = c'.foldedN)
    (hfoldedAt : forall w, c.foldedAt.lookup w = c'.foldedAt.lookup w) :
    c.image = c'.image := by
  unfold image
  rw [KeyMap.listing_congr WriterId.key_injective hp,
    KeyMap.listing_congr WriterId.key_injective hn,
    KeyMap.listing_congr WriterId.key_injective hretired,
    KeyMap.listing_congr WriterId.key_injective hfoldedAt, hfoldedP, hfoldedN]

theorem image_ofImage (c : PnCounter) : (ofImage c.image).image = c.image :=
  image_congr (KeyMap.lookup_ofList_listing WriterId.key c.p)
    (KeyMap.lookup_ofList_listing WriterId.key c.n)
    (KeyMap.lookup_ofList_listing WriterId.key c.retired) rfl rfl
    (KeyMap.lookup_ofList_listing WriterId.key c.foldedAt)

theorem decode_of_encode {postcard : Codec CounterImage}
    (hpostcard : postcard.RoundTrips) {c : PnCounter} {bytes : Bytes}
    (hencode : encode postcard c = some bytes)
    (hapart : (ofImage c.image).liveAndRetired = false) :
    decode postcard bytes = some (ofImage c.image) := by
  unfold decode
  rw [hpostcard c.image bytes hencode]
  simp [hapart]

end PnCounter

/-!
## Sets
-/

def tagKey (tag : Tag) : (NodeId ×ₗ Nat) ×ₗ Nat :=
  toLex (tag.1.key, tag.2)

theorem tagKey_injective : Function.Injective tagKey := by
  intro a b h
  have hparts : (a.1.key, a.2) = (b.1.key, b.2) := toLex.injective h
  rw [Prod.mk.injEq] at hparts
  exact Prod.ext (WriterId.key_injective hparts.1) hparts.2

structure SetImage (element : Type) where
  adds : List (Tag × element)
  seen : List (WriterId × Nat)
  retired : List (WriterId × Nat)
  foldedAt : List (WriterId × Nat)
deriving DecidableEq

namespace OrSet

variable {element : Type}

def image (set : OrSet element) : SetImage element where
  adds := KeyMap.listing tagKey set.adds
  seen := KeyMap.listing WriterId.key set.seen
  retired := KeyMap.listing WriterId.key set.retired
  foldedAt := KeyMap.listing WriterId.key set.foldedAt

def encode (postcard : Codec (SetImage element)) (set : OrSet element) :
    Option Bytes :=
  postcard.toVec set.image

theorem image_congr {x y : OrSet element}
    (hadds : forall tag, x.adds.lookup tag = y.adds.lookup tag)
    (hseen : forall w, x.seen.lookup w = y.seen.lookup w)
    (hretired : forall w, x.retired.lookup w = y.retired.lookup w)
    (hfoldedAt : forall w, x.foldedAt.lookup w = y.foldedAt.lookup w) :
    x.image = y.image := by
  unfold image
  rw [KeyMap.listing_congr tagKey_injective hadds,
    KeyMap.listing_congr WriterId.key_injective hseen,
    KeyMap.listing_congr WriterId.key_injective hretired,
    KeyMap.listing_congr WriterId.key_injective hfoldedAt]

end OrSet

end Sundog
