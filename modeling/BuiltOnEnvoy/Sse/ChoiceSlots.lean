import BuiltOnEnvoy.Sse.ChoiceDeltas

/-!
# The choice slots of a streamed chat completion

At the end of a stream the decoder allocates one slot for every index up to the
largest one that it has seen. The indices are those of the upstream: a short
stream can ask for any number of slots, and at the largest integer the number
wraps around and the allocation panics.
-/

namespace BuiltOnEnvoy.Sse.ChatCompletions

open Foundations

variable (codec : Codec)

/-- The response assembled from a stream in these pieces, with its allocation. -/
def decodeIn (maxLen : ℕ) (pieces : List Bytes) : Except Panic ChatCompletionResponse :=
  let r := (dataMachine (processChunk codec)).result ⟨false, newSSEAccumulator⟩ pieces
  finishIn codec maxLen r.2.acc

/-- There is no panic, and the number of slots is bounded by the number of bytes. -/
def SlotsWithin (maxLen scale offset : ℕ) (pieces : List Bytes) : Prop :=
  ∃ response, decodeIn codec maxLen pieces = .ok response ∧
    response.choices.length ≤ scale * pieces.flatten.length + offset

theorem processChunk_ok (a : SseAccumulator) (data : Bytes) :
    (processChunk codec a data).1 = none := by
  unfold processChunk
  cases codec.unmarshalChunk data <;> rfl

theorem decodeIn_eq (maxLen : ℕ) (pieces : List Bytes) :
    decodeIn codec maxLen pieces =
      finishIn codec maxLen (accumulate codec (payloads (lines pieces.flatten))) := by
  rw [decodeIn, result_payloads (processChunk_ok codec)]
  rfl

theorem slots_le_iff {maxChoiceIdx : ℤ} (hrange : Int64Range maxChoiceIdx) (maxLen bound : ℕ) :
    (∃ n, slots maxLen maxChoiceIdx = .ok n ∧ n ≤ bound) ↔
      maxChoiceIdx < 2 ^ 63 - 1 ∧ maxChoiceIdx < maxLen ∧ maxChoiceIdx < bound := by
  by_cases hmax : maxChoiceIdx < 0
  · simp only [slots, if_pos hmax, Except.ok.injEq, exists_eq_left', Nat.zero_le, true_iff]
    omega
  by_cases htop : maxChoiceIdx < 2 ^ 63 - 1
  · have hwrap : wrap64 (maxChoiceIdx + 1) = maxChoiceIdx + 1 := by
      apply wrap64_eq_self
      unfold Int64Range at hrange ⊢
      omega
    by_cases hlen : (maxLen : ℤ) < maxChoiceIdx + 1
    · simp only [slots, if_neg hmax, hwrap, if_pos (Or.inr hlen), reduceCtorEq, false_and,
        exists_false, false_iff]
      omega
    · have hfits : ¬(maxChoiceIdx + 1 < 0 ∨ (maxLen : ℤ) < maxChoiceIdx + 1) := by omega
      simp only [slots, if_neg hmax, hwrap, if_neg hfits, Except.ok.injEq, exists_eq_left']
      omega
  · have hpanic : slots maxLen maxChoiceIdx = .error .lenOutOfRange := by
      have hlast : maxChoiceIdx + 1 = 2 ^ 63 := by
        unfold Int64Range at hrange
        omega
      have hnegative : wrap64 (2 ^ 63) < 0 := by decide
      simp only [slots, if_neg hmax, hlast, if_pos (Or.inl hnegative)]
    simp only [hpanic, reduceCtorEq, false_and, exists_false, false_iff]
    exact fun h => htop h.1

theorem finishIn_slots {codec : Codec} (hint : codec.IntIndices) (maxLen bound : ℕ)
    (chunks : List Bytes) :
    (∃ response, finishIn codec maxLen (accumulate codec chunks) = .ok response ∧
        response.choices.length ≤ bound) ↔
      ∃ n, slots maxLen (maxIndex (choicesOf codec chunks)) = .ok n ∧ n ≤ bound := by
  have hchoices := finishIn_choices hint maxLen chunks
  cases hfinish : finishIn codec maxLen (accumulate codec chunks) with
  | error panic =>
    rw [hfinish] at hchoices
    cases hslots : slots maxLen (maxIndex (choicesOf codec chunks)) with
    | error panic => simp
    | ok n => simp [hslots, Except.map] at hchoices
  | ok response =>
    rw [hfinish] at hchoices
    cases hslots : slots maxLen (maxIndex (choicesOf codec chunks)) with
    | error panic => simp [hslots, Except.map] at hchoices
    | ok n =>
      simp only [hslots, Except.map, Except.ok.injEq] at hchoices
      simp [hchoices]

theorem maxIndex_lt_iff (cs : List ChatChunkChoice) {bound : ℤ} (hbound : 0 ≤ bound) :
    maxIndex cs < bound ↔ ∀ c ∈ cs, c.index < bound := by
  rw [← Int.le_sub_one_iff, le_maxIndex_iff]
  simp only [List.forall_mem_map, Int.le_sub_one_iff, and_iff_right_iff_imp]
  omega

/-- The slots are bounded by a linear function of the number of bytes exactly
when the indices of all choices are. -/
theorem slotsWithin_iff (codec : Codec) (hint : codec.IntIndices)
    (maxLen scale offset : ℕ) (pieces : List Bytes) :
    SlotsWithin codec maxLen scale offset pieces ↔
      ∀ c ∈ choicesOf codec (payloads (lines pieces.flatten)),
        c.index < 2 ^ 63 - 1 ∧ c.index < maxLen ∧
          c.index < (scale * pieces.flatten.length + offset : ℕ) := by
  rw [SlotsWithin, decodeIn_eq, finishIn_slots hint, slots_le_iff (maxIndex_range hint _),
    maxIndex_lt_iff _ (by norm_num), maxIndex_lt_iff _ (Int.natCast_nonneg _),
    maxIndex_lt_iff _ (Int.natCast_nonneg _)]
  exact ⟨fun h c hc => ⟨h.1 c hc, h.2.1 c hc, h.2.2 c hc⟩,
    fun h => ⟨fun c hc => (h c hc).1, fun c hc => (h c hc).2.1, fun c hc => (h c hc).2.2⟩⟩

/-- The payload of a chunk with one choice, at the largest index. -/
def largePayload : Bytes := ascii "\x7b\"choices\":[\x7b\"index\":9223372036854775807\x7d]\x7d"

def largePiece : Bytes := ascii "data: " ++ largePayload ++ [newline]

/-- The payload above, and one with a choice at index zero. -/
def largeCodec : Codec where
  unmarshalChunk data :=
    if data = largePayload then some ⟨[⟨2 ^ 63 - 1, "", [], []⟩], none⟩
    else if data = ascii "\x7b\"choices\":[\x7b\x7d]\x7d" then some ⟨[⟨0, "", [], []⟩], none⟩
    else none
  unmarshalString _ := none
  unmarshalParts _ := none
  marshalString _ := none

theorem largeCodec_intIndices : largeCodec.IntIndices := by
  intro data chunk hdecode c hc
  simp only [largeCodec] at hdecode
  split_ifs at hdecode
  · cases hdecode
    simp only [List.mem_singleton] at hc
    subst hc
    decide
  · cases hdecode
    simp only [List.mem_singleton] at hc
    subst hc
    decide

theorem slotsWithin_small :
    largeCodec.IntIndices ∧
      SlotsWithin largeCodec 1 1 0 [ascii "data: \x7b\"choices\":[\x7b\x7d]\x7d\n"] := by
  refine ⟨largeCodec_intIndices, (slotsWithin_iff _ largeCodec_intIndices _ _ _ _).mpr ?_⟩
  have hread : payloads (lines
      [ascii "data: \x7b\"choices\":[\x7b\x7d]\x7d\n"].flatten) =
      [ascii "\x7b\"choices\":[\x7b\x7d]\x7d"] := by decide +kernel
  have hchoices : choicesOf largeCodec [ascii "\x7b\"choices\":[\x7b\x7d]\x7d"] =
      [⟨0, "", [], []⟩] := by rfl
  rw [hread, hchoices, List.forall_mem_singleton]
  decide

/-- One chunk with the largest index: `finish` panics, and so there is no linear
bound on its slots. -/
theorem large_index_panics :
    (∀ maxLen, decodeIn largeCodec maxLen [largePiece] = .error .lenOutOfRange) ∧
      ¬∃ maxLen scale offset, ∀ pieces, SlotsWithin largeCodec maxLen scale offset pieces := by
  have hpanic : ∀ maxLen, decodeIn largeCodec maxLen [largePiece] = .error .lenOutOfRange := by
    intro maxLen
    have hread : payloads (lines [largePiece].flatten) = [largePayload] := by decide +kernel
    rw [decodeIn_eq, hread]
    have hmax : (accumulate largeCodec [largePayload]).maxChoiceIdx = 2 ^ 63 - 1 := by
      decide +kernel
    have hnegative : wrap64 (2 ^ 63 - 1 + 1) < 0 := by decide
    rw [finishIn, hmax, slots, if_neg (by norm_num)]
    simp only [if_pos (Or.inl hnegative)]
    rfl
  refine ⟨hpanic, ?_⟩
  rintro ⟨maxLen, scale, offset, hall⟩
  obtain ⟨response, hok, -⟩ := hall [largePiece]
  rw [hpanic maxLen] at hok
  cases hok

end BuiltOnEnvoy.Sse.ChatCompletions
