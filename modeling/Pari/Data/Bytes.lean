/-
# Byte strings

Little-endian words, fields at fixed offsets and equal-width chunks. A codec
proof needs three things from this layer: a field written into a concatenation is
read back at its offset, a word read from its own bytes is the word, and a string
of the right width is the encoding of the word it reads as.
-/

import Mathlib.Algebra.Order.Ring.Nat
import Mathlib.Data.List.Basic
import Mathlib.Data.UInt
import Mathlib.Tactic.Ring

namespace Data

universe u v

/-- A byte string. -/
abbrev Bytes := List UInt8

/-! ## Little-endian words -/

/-- The low `width` bytes of a number, least significant first. -/
def leBytes : Nat → Nat → Bytes
  | 0, _ => []
  | width + 1, value => UInt8.ofNat (value % 256) :: leBytes width (value / 256)

/-- The number a little-endian byte string denotes. -/
def leNat : Bytes → Nat
  | [] => 0
  | byte :: rest => byte.toNat + 256 * leNat rest

@[simp]
theorem length_leBytes (width value : Nat) : (leBytes width value).length = width := by
  induction width generalizing value with
  | zero => rfl
  | succ width ih => simp [leBytes, ih]

theorem leNat_lt (bytes : Bytes) : leNat bytes < 256 ^ bytes.length := by
  induction bytes with
  | nil => simp [leNat]
  | cons byte rest ih =>
      have hbyte : byte.toNat < 2 ^ 8 := byte.toNat_lt
      simp only [leNat, List.length_cons, pow_succ]
      omega

theorem leNat_leBytes {width value : Nat} (h : value < 256 ^ width) :
    leNat (leBytes width value) = value := by
  induction width generalizing value with
  | zero =>
      have : value = 0 := by simpa using h
      simp [leBytes, leNat, this]
  | succ width ih =>
      have hquot : value / 256 < 256 ^ width := by
        rw [pow_succ] at h
        exact Nat.div_lt_of_lt_mul (by omega)
      simp only [leBytes, leNat, ih hquot]
      have hbyte : (UInt8.ofNat (value % 256)).toNat = value % 256 :=
        UInt8.toNat_ofNat_of_lt' (Nat.mod_lt _ (by norm_num))
      omega

theorem leBytes_leNat (bytes : Bytes) : leBytes bytes.length (leNat bytes) = bytes := by
  induction bytes with
  | nil => rfl
  | cons byte rest ih =>
      have hbyte : byte.toNat < 2 ^ 8 := byte.toNat_lt
      have hmod : (byte.toNat + 256 * leNat rest) % 256 = byte.toNat := by omega
      have hdiv : (byte.toNat + 256 * leNat rest) / 256 = leNat rest := by omega
      simp [leBytes, leNat, hmod, hdiv, ih]

/-- `value.to_le_bytes()` for a 16-bit word. -/
def u16Bytes (value : UInt16) : Bytes := leBytes 2 value.toNat

/-- `value.to_le_bytes()` for a 32-bit word. -/
def u32Bytes (value : UInt32) : Bytes := leBytes 4 value.toNat

/-- `value.to_le_bytes()` for a 64-bit word. -/
def u64Bytes (value : UInt64) : Bytes := leBytes 8 value.toNat

/-- `u16::from_le_bytes`. -/
def u16OfBytes (bytes : Bytes) : UInt16 := UInt16.ofNat (leNat bytes)

/-- `u32::from_le_bytes`. -/
def u32OfBytes (bytes : Bytes) : UInt32 := UInt32.ofNat (leNat bytes)

/-- `u64::from_le_bytes`. -/
def u64OfBytes (bytes : Bytes) : UInt64 := UInt64.ofNat (leNat bytes)

@[simp]
theorem length_u16Bytes (value : UInt16) : (u16Bytes value).length = 2 := length_leBytes _ _

@[simp]
theorem length_u32Bytes (value : UInt32) : (u32Bytes value).length = 4 := length_leBytes _ _

@[simp]
theorem length_u64Bytes (value : UInt64) : (u64Bytes value).length = 8 := length_leBytes _ _

@[simp]
theorem u16OfBytes_u16Bytes (value : UInt16) : u16OfBytes (u16Bytes value) = value := by
  rw [u16OfBytes, u16Bytes, leNat_leBytes (by simpa using value.toNat_lt), UInt16.ofNat_toNat]

@[simp]
theorem u32OfBytes_u32Bytes (value : UInt32) : u32OfBytes (u32Bytes value) = value := by
  rw [u32OfBytes, u32Bytes, leNat_leBytes (by simpa using value.toNat_lt), UInt32.ofNat_toNat]

@[simp]
theorem u64OfBytes_u64Bytes (value : UInt64) : u64OfBytes (u64Bytes value) = value := by
  rw [u64OfBytes, u64Bytes, leNat_leBytes (by simpa using value.toNat_lt), UInt64.ofNat_toNat]

theorem u16Bytes_u16OfBytes {bytes : Bytes} (h : bytes.length = 2) :
    u16Bytes (u16OfBytes bytes) = bytes := by
  have hlt : leNat bytes < UInt16.size := by simpa [h, UInt16.size] using leNat_lt bytes
  rw [u16Bytes, u16OfBytes, UInt16.toNat_ofNat_of_lt' hlt, ← h, leBytes_leNat]

theorem u32Bytes_u32OfBytes {bytes : Bytes} (h : bytes.length = 4) :
    u32Bytes (u32OfBytes bytes) = bytes := by
  have hlt : leNat bytes < UInt32.size := by simpa [h, UInt32.size] using leNat_lt bytes
  rw [u32Bytes, u32OfBytes, UInt32.toNat_ofNat_of_lt' hlt, ← h, leBytes_leNat]

theorem u64Bytes_u64OfBytes {bytes : Bytes} (h : bytes.length = 8) :
    u64Bytes (u64OfBytes bytes) = bytes := by
  have hlt : leNat bytes < UInt64.size := by simpa [h, UInt64.size] using leNat_lt bytes
  rw [u64Bytes, u64OfBytes, UInt64.toNat_ofNat_of_lt' hlt, ← h, leBytes_leNat]

/-! ## Fields at an offset -/

/-- The `count` elements from `offset`, as far as the list reaches. -/
def window {α : Type u} (offset count : Nat) (list : List α) : List α :=
  (list.drop offset).take count

/-- `bytes.get(offset..offset + count)`. -/
def slice? {α : Type u} (offset count : Nat) (list : List α) : Option (List α) :=
  if offset + count ≤ list.length then some (window offset count list) else none

section Window

variable {α : Type u} {offset count : Nat} {list first rest : List α}

theorem length_window (h : offset + count ≤ list.length) :
    (window offset count list).length = count := by
  simp only [window, List.length_take, List.length_drop]
  omega

/-- A window past a prefix is a window of what follows the prefix. -/
theorem window_append_right (h : first.length ≤ offset) :
    window offset count (first ++ rest) = window (offset - first.length) count rest := by
  simp [window, List.drop_append, List.drop_eq_nil_of_le h]

/-- A window inside a prefix does not see what follows it. -/
theorem window_append_left (h : offset + count ≤ first.length) :
    window offset count (first ++ rest) = window offset count first := by
  have hdrop : count ≤ (first.drop offset).length := by
    rw [List.length_drop]
    omega
  rw [window, window, List.drop_append_of_le_length (by omega),
    List.take_append_of_le_length hdrop]

/-- The window exactly over the first part of a concatenation. -/
theorem window_prefix (h : first.length = count) : window 0 count (first ++ rest) = first := by
  simp [window, ← h]

theorem window_self (h : list.length = count) : window 0 count list = list := by
  simp [window, ← h]

/-- The window exactly over the middle part of a concatenation. -/
theorem window_middle {before middle after : List α} (hoffset : before.length = offset)
    (hcount : middle.length = count) :
    window offset count (before ++ (middle ++ after)) = middle := by
  rw [window_append_right (by omega), hoffset, Nat.sub_self, window_prefix hcount]

/-- A window of a window is a window. -/
theorem window_window {inner width : Nat} (h : inner + width ≤ count) :
    window inner width (window offset count list) = window (offset + inner) width list := by
  simp only [window, List.drop_take, List.drop_drop, List.take_take]
  congr 1
  omega

/-- A window splits into two adjacent ones. -/
theorem window_add {first second : Nat} :
    window offset (first + second) list =
      window offset first list ++ window (offset + first) second list := by
  rw [window, List.take_add, List.drop_drop]
  rfl

theorem slice?_eq_some_iff {part : List α} :
    slice? offset count list = some part ↔
      offset + count ≤ list.length ∧ window offset count list = part := by
  simp [slice?]

theorem slice?_of_le (h : offset + count ≤ list.length) :
    slice? offset count list = some (window offset count list) := if_pos h

/-- Splitting a list at consecutive windows. -/
theorem drop_eq_window_append :
    list.drop offset = window offset count list ++ list.drop (offset + count) := by
  rw [window, ← List.drop_drop]
  exact (List.take_append_drop count (list.drop offset)).symm

/-- A suffix is a concatenation exactly when its parts lie at consecutive offsets. -/
theorem drop_eq_append_iff :
    list.drop offset = first ++ rest ↔
      window offset first.length list = first ∧ list.drop (offset + first.length) = rest := by
  constructor
  · intro h
    rw [window, ← List.drop_drop, h]
    exact ⟨List.take_left, List.drop_left⟩
  · rintro ⟨hfirst, hrest⟩
    rw [@drop_eq_window_append _ _ first.length list, hfirst, hrest]

theorem drop_eq_iff_window (h : list.length = offset + rest.length) :
    list.drop offset = rest ↔ window offset rest.length list = rest := by
  rw [window, List.take_of_length_le (by simp [h])]

end Window

section Words

variable {offset : Nat} {bytes : Bytes}

theorem window_eq_u16Bytes_iff {value : UInt16}
    (h : offset + 2 ≤ bytes.length) :
    window offset 2 bytes = u16Bytes value ↔ u16OfBytes (window offset 2 bytes) = value := by
  constructor
  · intro heq
    rw [heq, u16OfBytes_u16Bytes]
  · rintro rfl
    exact (u16Bytes_u16OfBytes (length_window h)).symm

theorem window_eq_u32Bytes_iff {value : UInt32}
    (h : offset + 4 ≤ bytes.length) :
    window offset 4 bytes = u32Bytes value ↔ u32OfBytes (window offset 4 bytes) = value := by
  constructor
  · intro heq
    rw [heq, u32OfBytes_u32Bytes]
  · rintro rfl
    exact (u32Bytes_u32OfBytes (length_window h)).symm

theorem window_eq_u64Bytes_iff {value : UInt64}
    (h : offset + 8 ≤ bytes.length) :
    window offset 8 bytes = u64Bytes value ↔ u64OfBytes (window offset 8 bytes) = value := by
  constructor
  · intro heq
    rw [heq, u64OfBytes_u64Bytes]
  · rintro rfl
    exact (u64Bytes_u64OfBytes (length_window h)).symm

end Words

/-! ## Chunks -/

/-- `chunks_exact(width)`: the complete chunks in order; a shorter tail is dropped. -/
def chunksExact {α : Type u} (width : Nat) (list : List α) : List (List α) :=
  (List.range (list.length / width)).map fun index => window (index * width) width list

/-- The pieces a loop with a buffer of `width` elements reads: complete pieces, then
what remains. -/
def bufferedChunks {α : Type u} (width : Nat) (list : List α) : List (List α) :=
  (List.range ((list.length + width - 1) / width)).map fun index =>
    window (index * width) width list

section Chunks

variable {α : Type u} {β : Type v} {width : Nat}

@[simp]
theorem length_chunksExact (list : List α) :
    (chunksExact width list).length = list.length / width := by
  simp [chunksExact]

theorem chunksExact_nil : chunksExact width ([] : List α) = [] := by
  simp [chunksExact]

/-- Peel one complete chunk off the front. -/
theorem chunksExact_append {first : List α} (rest : List α) (hwidth : 0 < width)
    (h : first.length = width) :
    chunksExact width (first ++ rest) = first :: chunksExact width rest := by
  have hcount : (first ++ rest).length / width = rest.length / width + 1 := by
    rw [List.length_append, h, Nat.add_div_left _ hwidth]
  rw [chunksExact, hcount, List.range_succ_eq_map, List.map_cons, List.map_map]
  congr 1
  · rw [Nat.zero_mul, window_prefix h]
  · refine List.map_congr_left fun index _ => ?_
    have hle : first.length ≤ (index + 1) * width := by
      rw [h, Nat.succ_mul]
      omega
    rw [Function.comp_apply, window_append_right hle, h, Nat.succ_mul, Nat.add_sub_cancel]

/-- Chunking undoes concatenating equal-width pieces. -/
theorem chunksExact_flatMap (encode : β → List α) (items : List β) (hwidth : 0 < width)
    (h : ∀ item ∈ items, (encode item).length = width) :
    chunksExact width (items.flatMap encode) = items.map encode := by
  induction items with
  | nil => simp [chunksExact]
  | cons item items ih =>
      rw [List.flatMap_cons, chunksExact_append _ hwidth (h item List.mem_cons_self),
        ih fun other hmem => h other (List.mem_cons_of_mem item hmem), List.map_cons]

/-- Every complete chunk has the full width. -/
theorem length_of_mem_chunksExact {list chunk : List α} (h : chunk ∈ chunksExact width list) :
    chunk.length = width := by
  obtain ⟨index, hindex, rfl⟩ := List.mem_map.mp h
  have hlt : index < list.length / width := List.mem_range.mp hindex
  refine length_window ?_
  calc index * width + width = (index + 1) * width := by ring
    _ ≤ list.length / width * width := Nat.mul_le_mul_right width hlt
    _ ≤ list.length := Nat.div_mul_le_self _ _

/-- Consecutive windows of one width, concatenated, are a prefix of the list. -/
theorem flatten_map_window (list : List α) (count : Nat) :
    ((List.range count).map fun index => window (index * width) width list).flatten =
      list.take (count * width) := by
  induction count with
  | zero => simp
  | succ count ih =>
      rw [List.range_succ, List.map_append, List.flatten_append, ih]
      simp only [List.map_cons, List.map_nil, List.flatten_cons, List.flatten_nil,
        List.append_nil, window]
      rw [Nat.succ_mul, List.take_add]

theorem chunksExact_flatten {list : List α} (h : width ∣ list.length) :
    (chunksExact width list).flatten = list := by
  rw [chunksExact, flatten_map_window, Nat.div_mul_cancel h, List.take_length]

/-- The buffered pieces together are the whole list. -/
theorem bufferedChunks_flatten (list : List α) (hwidth : 0 < width) :
    (bufferedChunks width list).flatten = list := by
  rw [bufferedChunks, flatten_map_window, List.take_of_length_le]
  have hdiv := Nat.div_add_mod (list.length + width - 1) width
  have hmod := Nat.mod_lt (list.length + width - 1) hwidth
  rw [Nat.mul_comm] at hdiv
  omega

/-- Pieces of a list that divides evenly are its complete chunks. -/
theorem bufferedChunks_eq_chunksExact {list : List α} (hwidth : 0 < width)
    (h : width ∣ list.length) : bufferedChunks width list = chunksExact width list := by
  obtain ⟨count, hcount⟩ := h
  have hpieces : (width * count + width - 1) / width = count := by
    rw [Nat.add_sub_assoc hwidth, Nat.mul_add_div hwidth, Nat.div_eq_of_lt (by omega),
      Nat.add_zero]
  rw [bufferedChunks, chunksExact, hcount, hpieces, Nat.mul_div_cancel_left _ hwidth]

/-- The pieces of equal-width pieces put together are those pieces. -/
theorem bufferedChunks_flatten_pieces {pieces : List (List α)} (hwidth : 0 < width)
    (h : ∀ piece ∈ pieces, piece.length = width) :
    bufferedChunks width pieces.flatten = pieces := by
  have hexact : chunksExact width (pieces.flatMap id) = pieces.map id :=
    chunksExact_flatMap id pieces hwidth h
  have hdvd : width ∣ pieces.flatten.length := by
    rw [List.length_flatten, List.map_congr_left h]
    simp
  rw [bufferedChunks_eq_chunksExact hwidth hdvd, ← List.flatMap_id, hexact, List.map_id]

end Chunks

/-! ## Lists of words -/

/-- `u64::from_le_bytes(bytes.try_into()?)`: exactly eight bytes are a word. -/
def u64Exact? (bytes : Bytes) : Option UInt64 :=
  if bytes.length = 8 then some (u64OfBytes bytes) else none

theorem u64Exact?_of_length {bytes : Bytes} (h : bytes.length = 8) :
    u64Exact? bytes = some (u64OfBytes bytes) := if_pos h

/-- The concatenated little-endian encodings of a list of 64-bit words. -/
def u64List (values : List UInt64) : Bytes := values.flatMap u64Bytes

@[simp]
theorem length_u64List (values : List UInt64) : (u64List values).length = 8 * values.length := by
  simp [u64List, List.length_flatMap, Nat.mul_comm]

@[simp]
theorem u64List_nil : u64List [] = [] := rfl

theorem u64List_append (left right : List UInt64) :
    u64List (left ++ right) = u64List left ++ u64List right :=
  List.flatMap_append

/-- Reading every eight-byte chunk inverts writing every word. -/
theorem map_chunksExact_u64List (values : List UInt64) :
    (chunksExact 8 (u64List values)).map u64OfBytes = values := by
  rw [u64List, chunksExact_flatMap u64Bytes values (by norm_num) fun value _ =>
    length_u64Bytes value, List.map_map]
  simp [Function.comp_def]

/-- Writing the words read from complete chunks gives the bytes back. -/
theorem u64List_injective : Function.Injective u64List := by
  intro left right h
  rw [← map_chunksExact_u64List left, h, map_chunksExact_u64List]

theorem u64List_map_chunksExact {bytes : Bytes} (h : 8 ∣ bytes.length) :
    u64List ((chunksExact 8 bytes).map u64OfBytes) = bytes := by
  rw [u64List, List.flatMap_map]
  conv_rhs => rw [← chunksExact_flatten h]
  rw [List.flatMap_def]
  refine congrArg List.flatten (List.map_congr_left (g := id) fun chunk hmem => ?_) |>.trans ?_
  · exact u64Bytes_u64OfBytes (length_of_mem_chunksExact hmem)
  · rw [List.map_id]

/-- An element and what stands before and behind it. -/
theorem exists_split_of_getElem? {list : List α} {index : Nat} {value : α}
    (h : list[index]? = some value) :
    ∃ before after, list = before ++ value :: after ∧ before.length = index := by
  obtain ⟨hlt, rfl⟩ := List.getElem?_eq_some_iff.mp h
  refine ⟨list.take index, list.drop (index + 1), ?_, ?_⟩
  · rw [← List.drop_eq_getElem_cons hlt, List.take_append_drop]
  · exact List.length_take_of_le (le_of_lt hlt)

/-- A word in a list of words. -/
theorem window_u64List {values : List UInt64} {index : Nat} {value : UInt64}
    (h : values[index]? = some value) : window (8 * index) 8 (u64List values) = u64Bytes value := by
  obtain ⟨before, after, rfl, hlength⟩ := exists_split_of_getElem? h
  rw [u64List_append]
  exact window_middle (by rw [length_u64List, hlength]) (length_u64Bytes value)

end Data
