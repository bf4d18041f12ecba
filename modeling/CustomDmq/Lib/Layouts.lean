import CustomDmq.Lib.Bytes

/-!
# Layouts of fixed width

A layout writes a value in a fixed number of bytes and reads it from the front of a byte string. It
carries its own laws: the width, the round trip whatever follows, and that enough bytes are always
read. Layouts are built from big-endian numbers, pairs and a change of type.
-/

namespace Layouts

open Bytes

variable {α β : Type}

structure Layout (α : Type) where
  width : ℕ
  encode : α → List UInt8
  /-- The value at the front, when its bytes are all there. -/
  decode : List UInt8 → Option α
  length_encode : ∀ a, (encode a).length = width
  decode_append : ∀ a rest, decode (encode a ++ rest) = some a
  isSome_decode : ∀ bs, width ≤ bs.length → (decode bs).isSome

namespace Layout

/-- A big-endian number of `w` bytes. -/
def number (w : ℕ) (toNat : α → ℕ) (ofNat : ℕ → α) (hlt : ∀ a, toNat a < 256 ^ w)
    (hinv : ∀ a, ofNat (toNat a) = a) : Layout α where
  width := w
  encode a := beBytes w (toNat a)
  decode bs := (slice bs 0 w).map fun digits => ofNat (ofBeBytes digits)
  length_encode a := length_beBytes w _
  decode_append a rest := by
    have hslice := slice_append [] (beBytes w (toNat a)) rest
    rw [List.nil_append, List.length_nil, length_beBytes] at hslice
    rw [hslice, Option.map_some, ofBeBytes_beBytes_of_lt (hlt a), hinv]
  isSome_decode bs h := by
    rw [Option.isSome_map]
    exact slice_isSome (by omega)

def uint8 : Layout UInt8 where
  width := 1
  encode b := [b]
  decode := List.head?
  length_encode _ := rfl
  decode_append _ _ := rfl
  isSome_decode bs h := by
    rw [List.isSome_head?]
    exact List.ne_nil_of_length_pos h

def uint16 : Layout UInt16 :=
  number 2 UInt16.toNat UInt16.ofNat (fun n => n.toNat_lt) fun _ => UInt16.ofNat_toNat

def uint32 : Layout UInt32 :=
  number 4 UInt32.toNat UInt32.ofNat (fun n => n.toNat_lt) fun _ => UInt32.ofNat_toNat

def uint64 : Layout UInt64 :=
  number 8 UInt64.toNat UInt64.ofNat (fun n => n.toNat_lt) fun _ => UInt64.ofNat_toNat

/-- One value after the other. -/
def pair (L : Layout α) (M : Layout β) : Layout (α × β) where
  width := L.width + M.width
  encode p := L.encode p.1 ++ M.encode p.2
  decode bs := (L.decode bs).bind fun a => (M.decode (bs.drop L.width)).map fun b => (a, b)
  length_encode p := by rw [List.length_append, L.length_encode, M.length_encode]
  decode_append p rest := by
    rw [List.append_assoc, L.decode_append, Option.bind_some,
      List.drop_left' (L.length_encode p.1), M.decode_append, Option.map_some]
  isSome_decode bs h := by
    obtain ⟨a, ha⟩ := Option.isSome_iff_exists.mp (L.isSome_decode bs (by omega))
    rw [ha, Option.bind_some, Option.isSome_map]
    refine M.isSome_decode _ ?_
    rw [List.length_drop]
    omega

/-- The layout of a type whose values are taken apart and put together again. -/
def iso (L : Layout β) (fields : α → β) (build : β → α) (hinv : ∀ a, build (fields a) = a) :
    Layout α where
  width := L.width
  encode a := L.encode (fields a)
  decode bs := (L.decode bs).map build
  length_encode a := L.length_encode _
  decode_append a rest := by rw [L.decode_append, Option.map_some, hinv]
  isSome_decode bs h := by
    rw [Option.isSome_map]
    exact L.isSome_decode bs h

/-! ### Canonical layouts -/

/-- What is read is what would be written. -/
def Canonical (L : Layout α) : Prop := ∀ bs a, L.decode bs = some a → L.encode a <+: bs

theorem canonical_number {w : ℕ} {toNat : α → ℕ} {ofNat : ℕ → α} {hlt : ∀ a, toNat a < 256 ^ w}
    {hinv : ∀ a, ofNat (toNat a) = a} (hback : ∀ n < 256 ^ w, toNat (ofNat n) = n) :
    (number w toNat ofNat hlt hinv).Canonical := by
  intro bs a h
  obtain ⟨digits, hslice, rfl⟩ := Option.map_eq_some_iff.mp h
  obtain ⟨hle, rfl⟩ := slice_eq_some_iff.mp hslice
  have hlen : ((bs.drop 0).take w).length = w := by
    rw [List.length_take, List.drop_zero]
    omega
  have hlt' := ofBeBytes_lt ((bs.drop 0).take w)
  have hwrite := beBytes_ofBeBytes ((bs.drop 0).take w)
  rw [hlen] at hlt' hwrite
  show beBytes w (toNat (ofNat _)) <+: bs
  rw [hback _ hlt', hwrite, List.drop_zero]
  exact List.take_prefix w bs

theorem canonical_uint16 : uint16.Canonical :=
  canonical_number fun _ h => UInt16.toNat_ofNat_of_lt' h

theorem canonical_uint64 : uint64.Canonical :=
  canonical_number fun _ h => UInt64.toNat_ofNat_of_lt' h

theorem Canonical.pair {L : Layout α} {M : Layout β} (hL : L.Canonical) (hM : M.Canonical) :
    (L.pair M).Canonical := by
  intro bs p h
  obtain ⟨a, ha, hp⟩ := Option.bind_eq_some_iff.mp h
  obtain ⟨b, hb, rfl⟩ := Option.map_eq_some_iff.mp hp
  obtain ⟨rest, rfl⟩ := hL bs a ha
  rw [List.drop_left' (L.length_encode a)] at hb
  exact (List.prefix_append_right_inj (L.encode a)).mpr (hM rest b hb)

end Layout

end Layouts
