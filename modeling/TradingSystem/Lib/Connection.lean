import TradingSystem.Lib.Packing
import TradingSystem.Lib.Numbering

/-!
# Messages over a connection of bytes

One side writes messages of a fixed size, the other reads the bytes in pieces that end anywhere and keeps
the bytes of a message that is not complete. `Carries` is what holds at any time: the messages that were
read, and those that the bytes in between still hold, are the messages sent.
-/

namespace Codec

variable {α : Type} {codec : Codec α} {as sent got left : List α} {buffer flight bytes bytes' : List UInt8}

/-- Of the bytes of messages some are read, as far as it goes: the first messages are complete, and the
others are in the rest and in the bytes not read. -/
theorem exists_unpack (hsize : 0 < codec.size) (h : bytes ++ bytes' = codec.pack as) :
    ∃ k, codec.unpack bytes = as.take k ∧ rest codec.size bytes ++ bytes' = codec.pack (as.drop k) := by
  have hrest : rest codec.size bytes ++ bytes' = codec.pack (as.drop (bytes.length / codec.size)) := by
    rw [← drop_pack, ← h, List.drop_append_of_le_length (Nat.div_mul_le_self _ _)]
    rfl
  refine ⟨bytes.length / codec.size, ?_, hrest⟩
  have hall : codec.unpack (bytes ++ bytes') =
      codec.unpack bytes ++ codec.unpack (rest codec.size bytes ++ bytes') := unpack_append hsize bytes'
  rw [h, unpack_pack hsize, hrest, unpack_pack hsize] at hall
  exact List.append_cancel_right (hall.symm.trans (List.take_append_drop _ as).symm)

/-- Of the messages sent `got` have been read, and the bytes hold the others. -/
def Carries (codec : Codec α) (sent got : List α) (bytes : List UInt8) : Prop :=
  ∃ left, sent = got ++ left ∧ bytes = codec.pack left

theorem carries_nil : codec.Carries [] [] [] := ⟨[], rfl, rfl⟩

theorem Carries.send (h : codec.Carries sent got bytes) (as : List α) :
    codec.Carries (sent ++ as) got (bytes ++ codec.pack as) := by
  obtain ⟨left, rfl, rfl⟩ := h
  exact ⟨left ++ as, List.append_assoc _ _ _, pack_append.symm⟩

/-- A piece of any length is read. -/
theorem Carries.receive (hsize : 0 < codec.size) (h : codec.Carries sent got (buffer ++ flight)) (n : Nat) :
    codec.Carries sent (got ++ codec.unpack (buffer ++ flight.take n))
      (rest codec.size (buffer ++ flight.take n) ++ flight.drop n) := by
  obtain ⟨left, rfl, hbytes⟩ := h
  have hsplit : (buffer ++ flight.take n) ++ flight.drop n = codec.pack left := by
    rw [List.append_assoc, List.take_append_drop, hbytes]
  obtain ⟨k, hunpack, hrest⟩ := exists_unpack hsize hsplit
  refine ⟨left.drop k, ?_, hrest⟩
  rw [hunpack, List.append_assoc, List.take_append_drop]

/-- **No message is lost or read twice.** -/
theorem Carries.sent_eq (hsize : 0 < codec.size) (h : codec.Carries sent got bytes) :
    sent = got ++ codec.unpack bytes := by
  obtain ⟨left, rfl, rfl⟩ := h
  rw [unpack_pack hsize]

end Codec

/-! ## Numbered messages -/

section

variable {α β : Type} {seqNum : α → UInt64} {f : UInt64 × β → α} {n : UInt64} {vs : List β} {as bs : List α}

/-- The first of numbered messages are the first values, numbered. -/
theorem eq_numberFrom_of_append (h : (numberFrom n vs).map f = as ++ bs) :
    as = (numberFrom n (vs.take as.length)).map f := by
  rw [← numberFrom_take, List.map_take, h, List.take_left]

/-- A reader that takes messages in sequence has taken all that it has read. -/
theorem taken_of_append (hf : ∀ e, seqNum (f e) = e.1) (h : (numberFrom n vs).map f = as ++ bs) :
    taken seqNum n as = as := by
  rw [eq_numberFrom_of_append h, taken_numberFrom hf]

end
