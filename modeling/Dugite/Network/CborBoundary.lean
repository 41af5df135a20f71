import Dugite.Lib.Framing
import Dugite.Primitives.Bytes

/-!
# The boundary of a CBOR item

`try_decode_cbor_boundary` tells the multiplexer how many bytes at the beginning of a buffer are one
CBOR item. It walks over the item with `skip_cbor_value`, which uses the decoder of the library
`minicbor`. The decoder is a parameter here: what type it sees at the beginning of the bytes, and
how many bytes each of its readers takes. `LocalDecoder` adds what is used of it: the type that is
seen and what the reader of this type does are decided by the bytes that the reader takes.

`LocalDecoder.detector` is the result: the boundary does not depend on what follows the item, and no
proper beginning of an item has one.
-/

namespace Dugite

open Framing Option List Nat

/-- `minicbor::data::Type`. -/
inductive CborType where
  | bool
  | null
  | undefined
  | u8
  | u16
  | u32
  | u64
  | i8
  | i16
  | i32
  | i64
  | int
  | f16
  | f32
  | f64
  | simple
  | bytes
  | bytesIndef
  | string
  | stringIndef
  | array
  | arrayIndef
  | map
  | mapIndef
  | tag
  | breakCode
  | unknown
  deriving DecidableEq

/-- The decoder at the beginning of some bytes. A reader that succeeds says how many bytes it took;
`array` and `map` also say the number of entries, if the header has it. -/
structure CborDecoder where
  datatype : Bytes → Option CborType
  (u64 i64 bool null bytes str tag : Bytes → Option Nat)
  (array map : Bytes → Option (Option Nat × Nat))
  (simple f64 undefined skip : Bytes → Option Nat)

variable (dec : CborDecoder)

/-- The reader that `skip_cbor_value` uses first for an item of a type. -/
def CborDecoder.read (d : Bytes) : CborType → Option (Option Nat × Nat)
  | .u8 | .u16 | .u32 | .u64 => (dec.u64 d).map (none, ·)
  | .i8 | .i16 | .i32 | .i64 | .int => (dec.i64 d).map (none, ·)
  | .bool => (dec.bool d).map (none, ·)
  | .null => (dec.null d).map (none, ·)
  | .bytes | .bytesIndef => (dec.bytes d).map (none, ·)
  | .string | .stringIndef => (dec.str d).map (none, ·)
  | .tag => (dec.tag d).map (none, ·)
  | .array | .arrayIndef => dec.array d
  | .map | .mapIndef => dec.map d
  | .simple => (dec.simple d).map (none, ·)
  | .f16 | .f32 | .f64 => (dec.f64 d).map (none, ·)
  | .undefined => (dec.undefined d).map (none, ·)
  | .breakCode => (dec.skip d).map (none, ·)
  | .unknown => none

/-- A decoder whose readers take something and decide by it. -/
structure LocalDecoder extends CborDecoder where
  read_pos : ∀ {d t len n}, datatype d = some t → toCborDecoder.read d t = some (len, n) → 0 < n
  read_stable : ∀ {d t len n}, datatype d = some t → toCborDecoder.read d t = some (len, n) →
    n ≤ d.length ∧
      ∀ d', d.take n <+: d' → datatype d' = some t ∧ toCborDecoder.read d' t = some (len, n)

/-- The loop over an indefinite container: entries up to the break code. Every entry takes a byte,
so `fuel` for the bytes that are there is enough. -/
def skipUntilBreak (dec : CborDecoder) (entry : Bytes → Option Nat) : Nat → Bytes → Option Nat
  | 0, _ => none
  | fuel + 1, d =>
    match dec.datatype d with
    | none => none
    | some t =>
      if t = .breakCode then dec.skip d
      else (entry d).bind fun n => after n (skipUntilBreak dec entry fuel) d

/-- What comes after the first bytes of an item, with `item` for the items inside. -/
def skipContents (item : Bytes → Option Nat) (len : Option Nat) (d : Bytes) : CborType → Option Nat
  | .tag => item d
  | .array => len.bind fun len => times item len d
  | .arrayIndef => skipUntilBreak dec item (d.length + 1) d
  | .map => len.bind fun len => times (times item 2) len d
  | .mapIndef => skipUntilBreak dec (times item 2) (d.length + 1) d
  | _ => some 0

/-- `skip_cbor_value_depth`, by the number of levels that may still be entered. -/
def skipCborValueDepth (dec : CborDecoder) : Nat → Bytes → Option Nat
  | 0, _ => none
  | levels + 1, d =>
    (dec.datatype d).bind fun t => (dec.read d t).bind fun head =>
      after head.2 (skipContents dec (skipCborValueDepth dec levels) head.1 · t) d

def maxCborDepth : Nat := 64

def tryDecodeCborBoundary (d : Bytes) : Option Nat :=
  if d.isEmpty then none else skipCborValueDepth dec (maxCborDepth + 1) d

/-! ## Locality -/

variable {M : LocalDecoder} {entry : Bytes → Option Nat} {d : Bytes}

/-- A reader of items: it takes something, decides by it, and the type it saw is decided with it. -/
structure ItemReader (M : LocalDecoder) (read : Bytes → Option Nat) : Prop where
  stable : Local read
  pos : ∀ {d n}, read d = some n → 0 < n
  datatype : ∀ {d n d'}, read d = some n → d.take n <+: d' → M.datatype d' = M.datatype d

theorem ItemReader.two {read : Bytes → Option Nat} (h : ItemReader M read) :
    ItemReader M (times read 2) where
  stable := local_times h.stable 2
  pos := by
    intro d k hk
    obtain ⟨n, hn, hrest⟩ := bind_eq_some_iff.1 hk
    obtain ⟨m, -, rfl⟩ := after_eq_some.1 hrest
    exact Nat.add_pos_left (h.pos hn) m
  datatype := by
    intro d k d' hk hd'
    obtain ⟨n, hn, hrest⟩ := bind_eq_some_iff.1 hk
    obtain ⟨m, -, rfl⟩ := after_eq_some.1 hrest
    exact h.datatype hn (isPrefix_of_take_add hd')

/-- Fuel for as many entries as bytes are taken is enough. -/
theorem skipUntilBreak_stable (hentry : ItemReader M entry) {fuel : Nat} {k : Nat}
    (h : skipUntilBreak M.toCborDecoder entry fuel d = some k) :
    k ≤ d.length ∧ ∀ d' fuel', d.take k <+: d' → k ≤ fuel' →
      skipUntilBreak M.toCborDecoder entry fuel' d' = some k := by
  induction fuel generalizing d k with
  | zero => cases h
  | succ fuel ih =>
    unfold skipUntilBreak at h
    cases htype : M.datatype d with
    | none => rw [htype] at h; cases h
    | some t =>
    rw [htype] at h
    dsimp only at h
    split at h
    · next hbreak =>
      subst hbreak
      have hread : M.read d .breakCode = some (none, k) := by
        rw [CborDecoder.read, h]
        rfl
      have hpos := M.read_pos htype hread
      obtain ⟨hle, hstable⟩ := M.read_stable htype hread
      refine ⟨hle, fun d' fuel' hd' hfuel => ?_⟩
      obtain ⟨htype', hread'⟩ := hstable d' hd'
      obtain ⟨fuel', rfl⟩ := Nat.exists_eq_add_of_lt (Nat.lt_of_lt_of_le hpos hfuel)
      unfold skipUntilBreak
      rw [htype']
      obtain ⟨n, hn, hpair⟩ := map_eq_some_iff.1 hread'
      cases hpair
      exact hn
    · next hbreak =>
      obtain ⟨n, hn, hrest⟩ := bind_eq_some_iff.1 h
      obtain ⟨m, hm, rfl⟩ := after_eq_some.1 hrest
      have hpos := hentry.pos hn
      obtain ⟨hle, hstable⟩ := hentry.stable hn
      obtain ⟨hle', hstable'⟩ := ih hm
      rw [length_drop] at hle'
      refine ⟨by omega, fun d' fuel' hd' hfuel => ?_⟩
      obtain ⟨fuel', rfl⟩ : ∃ f, fuel' = f + 1 := ⟨fuel' - 1, by omega⟩
      have htype' := (hentry.datatype hn (isPrefix_of_take_add hd')).trans htype
      unfold skipUntilBreak
      rw [htype']
      dsimp only
      rw [if_neg hbreak, hstable d' (isPrefix_of_take_add hd'), bind_some]
      exact after_eq_some.2
        ⟨m, hstable' _ _ (isPrefix_drop_of_take_add hd') (by omega), rfl⟩

theorem local_skipUntilBreak (hentry : ItemReader M entry) :
    Local fun d => skipUntilBreak M.toCborDecoder entry (d.length + 1) d := by
  intro d k h
  obtain ⟨hle, hstable⟩ := skipUntilBreak_stable hentry h
  refine ⟨hle, fun d' hd' => hstable d' _ hd' ?_⟩
  have hlength := hd'.length_le
  rw [length_take, min_eq_left hle] at hlength
  omega

theorem local_skipContents {item : Bytes → Option Nat} (hitem : ItemReader M item)
    (len : Option Nat) (t : CborType) :
    Local fun d => skipContents M.toCborDecoder item len d t := by
  have hnothing : Local fun _ : Bytes => some 0 := by
    intro d n h
    cases h
    exact ⟨zero_le _, fun _ _ => rfl⟩
  have hcounted : ∀ read : Bytes → Option Nat, Local read →
      Local fun d => len.bind fun len => times read len d := by
    intro read hread
    cases len with
    | none => exact fun d n h => nomatch h
    | some len => exact local_times hread len
  cases t with
  | tag => exact hitem.stable
  | array => exact hcounted item hitem.stable
  | arrayIndef => exact local_skipUntilBreak hitem
  | map => exact hcounted _ hitem.two.stable
  | mapIndef => exact local_skipUntilBreak hitem.two
  | _ => exact hnothing

theorem itemReader_skipCborValueDepth (levels : Nat) :
    ItemReader M (skipCborValueDepth M.toCborDecoder levels) := by
  induction levels with
  | zero => exact ⟨fun d n h => (nomatch h), fun h => (nomatch h), fun h => (nomatch h)⟩
  | succ levels ih =>
    -- what a successful run of the reader has seen
    have hcases : ∀ {d} {k}, skipCborValueDepth M.toCborDecoder (levels + 1) d = some k →
        ∃ t len n, M.datatype d = some t ∧ M.read d t = some (len, n) ∧
          after n (skipContents M.toCborDecoder
            (skipCborValueDepth M.toCborDecoder levels) len · t) d = some k := by
      intro d k h
      obtain ⟨t, ht, h⟩ := bind_eq_some_iff.1 h
      obtain ⟨head, hhead, h⟩ := bind_eq_some_iff.1 h
      exact ⟨t, head.1, head.2, ht, hhead, h⟩
    refine ⟨?_, ?_, ?_⟩
    · intro d k h
      obtain ⟨t, len, n, ht, hread, hrest⟩ := hcases h
      obtain ⟨hle, hstable⟩ := M.read_stable ht hread
      obtain ⟨hnk, hk, hafter⟩ := (local_skipContents ih len t).after hle hrest
      refine ⟨hk, fun d' hd' => ?_⟩
      obtain ⟨ht', hread'⟩ := hstable d' ((take_prefix_take_left hnk).trans hd')
      exact bind_eq_some_iff.2 ⟨t, ht', bind_eq_some_iff.2
        ⟨(len, n), hread', hafter d' hd'⟩⟩
    · intro d k h
      obtain ⟨t, len, n, ht, hread, hrest⟩ := hcases h
      obtain ⟨m, -, rfl⟩ := after_eq_some.1 hrest
      exact Nat.add_pos_left (M.read_pos ht hread) m
    · intro d k d' h hd'
      obtain ⟨t, len, n, ht, hread, hrest⟩ := hcases h
      obtain ⟨m, -, rfl⟩ := after_eq_some.1 hrest
      obtain ⟨-, hstable⟩ := M.read_stable ht hread
      exact (hstable d' (isPrefix_of_take_add hd')).1.trans ht.symm

/-- The multiplexer's detector of messages. -/
def LocalDecoder.detector (M : LocalDecoder) : Detector UInt8 where
  boundary := tryDecodeCborBoundary M.toCborDecoder
  stable := by
    intro d n h
    have hreader := itemReader_skipCborValueDepth (M := M) (maxCborDepth + 1)
    unfold tryDecodeCborBoundary at h
    split at h
    · cases h
    have hpos := hreader.pos h
    obtain ⟨hle, hstable⟩ := hreader.stable h
    refine ⟨hle, fun d' hd' => ?_⟩
    have hlength := hd'.length_le
    rw [length_take, min_eq_left hle] at hlength
    have hne : ¬d'.isEmpty = true := by
      rw [List.isEmpty_iff]
      rintro rfl
      rw [length_nil] at hlength
      omega
    unfold tryDecodeCborBoundary
    rw [if_neg hne]
    exact hstable d' hd'
  pos := by
    intro d n h
    unfold tryDecodeCborBoundary at h
    split at h
    · cases h
    · exact (itemReader_skipCborValueDepth (M := M) (maxCborDepth + 1)).pos h

/-! ## A small decoder -/

/-- A decoder that knows the numbers below 24 and the arrays of fewer than 24 items. -/
def smallDecoder : CborDecoder where
  datatype
    | [] => none
    | b :: _ =>
      if b.toNat < 24 then some .u8
      else if 0x80 ≤ b.toNat ∧ b.toNat < 0x98 then some .array else none
  u64 d := d.head?.map fun _ => 1
  i64 _ := none
  bool _ := none
  null _ := none
  bytes _ := none
  str _ := none
  tag _ := none
  array d := d.head?.map fun b => (some (b.toNat - 0x80), 1)
  map _ := none
  simple _ := none
  f64 _ := none
  undefined _ := none
  skip _ := none

/-- Every reader of the small decoder looks at one byte and takes it. -/
theorem smallDecoder_read {t : CborType} {len : Option Nat} {n : Nat}
    (htype : smallDecoder.datatype d = some t) (hread : smallDecoder.read d t = some (len, n)) :
    n = 1 ∧ ∃ b rest, d = b :: rest ∧ ∀ rest', smallDecoder.datatype (b :: rest') = some t ∧
        smallDecoder.read (b :: rest') t = some (len, n) := by
  cases d with
  | nil => cases htype
  | cons b rest =>
  have hcases : t = .u8 ∨ t = .array := by
    change (if b.toNat < 24 then some CborType.u8
      else if 0x80 ≤ b.toNat ∧ b.toNat < 0x98 then some .array else none) = some t at htype
    split at htype
    · cases htype
      exact .inl rfl
    split at htype
    · cases htype
      exact .inr rfl
    · cases htype
  rcases hcases with rfl | rfl
  · cases hread
    exact ⟨rfl, b, rest, rfl, fun _ => ⟨htype, rfl⟩⟩
  · cases hread
    exact ⟨rfl, b, rest, rfl, fun _ => ⟨htype, rfl⟩⟩

def smallLocalDecoder : LocalDecoder where
  toCborDecoder := smallDecoder
  read_pos := by
    intro d t len n htype hread
    rw [(smallDecoder_read htype hread).1]
    exact one_pos
  read_stable := by
    intro d t len n htype hread
    obtain ⟨rfl, b, rest, rfl, hstable⟩ := smallDecoder_read htype hread
    refine ⟨succ_pos _, ?_⟩
    rintro d' ⟨rest', rfl⟩
    exact hstable rest'

end Dugite
