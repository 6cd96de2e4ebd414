import Ma35d1.I2c.Reading
import Ma35d1.I2c.Writing

/-!
# The multi-byte functions

When each of the four functions does what it should, on every bus.
-/

namespace Ma35d1.I2c

/-- A write of a byte that the slave refuses returns the whole length all the same, and a read of
less than two bytes acknowledges the first one. -/
theorem returns_law_iff (timeOut : BitVec 32) (w : Behaviour) (dat slaveAddr dataAddr : Byte)
    (regAddr : BitVec 16) (data rdata : Nat → Byte) (wLen rLen : BitVec 32) :
    (Returns (writeMultiBytes timeOut w dat slaveAddr data wLen)
        (WriteLaw timeOut w (frameOf slaveAddr [] data wLen) wLen) ↔
      Served timeOut w (1 + wLen.toNat) wLen.toNat) ∧
    (Returns (writeMultiBytesOneReg timeOut w dat slaveAddr dataAddr data wLen)
        (WriteLaw timeOut w (frameOf slaveAddr [dataAddr] data wLen) wLen) ↔
      Served timeOut w (2 + wLen.toNat) wLen.toNat) ∧
    (Returns (writeMultiBytesTwoRegs timeOut w dat slaveAddr regAddr data wLen)
        (WriteLaw timeOut w (frameOf slaveAddr (twoRegs regAddr) data wLen) wLen) ↔
      Served timeOut w (3 + wLen.toNat) wLen.toNat) ∧
    (Returns (readMultiBytes timeOut w dat slaveAddr rdata rLen) (ReadLaw timeOut w rdata rLen) ↔
      ReadServed timeOut w rLen.toNat) := by
  have h₁ : (frameOf slaveAddr [] data wLen).length = 1 + wLen.toNat := frameOf_length
  have h₂ : (frameOf slaveAddr [dataAddr] data wLen).length = 2 + wLen.toNat := frameOf_length
  have h₃ : (frameOf slaveAddr (twoRegs regAddr) data wLen).length = 3 + wLen.toNat :=
    frameOf_length
  rw [← h₁, ← h₂, ← h₃]
  exact ⟨writeSwitch_sends.call_iff .new dat, writeOneRegSwitch_sends.call_iff .new dat,
    writeTwoRegsSwitch_sends.call_iff ⟨.new, rfl⟩ dat, returns_readMultiBytes_iff⟩

/-- A slave that takes its address and refuses every byte after it. -/
def refusing : Behaviour where
  start := ⟨some 0, .ok ()⟩
  ack := fun k => ⟨some 0, .ok (k == 0)⟩
  send := fun _ => ⟨none, .error .error⟩
  stopped := some 0

/-- One byte is written, and refused, and counted as transmitted. -/
theorem not_returns_law_refusing :
    (writeMultiBytes 180000000 refusing 0 0x50 (fun _ => 0xab) 1 4).map
        (fun r => (r.1.len, r.2.sent, r.2.acks)) = some (1, [0xa0, 0xab], [true, false]) ∧
      ¬Returns (writeMultiBytes 180000000 refusing 0 0x50 (fun _ => 0xab) 1)
        (WriteLaw 180000000 refusing (frameOf 0x50 [] (fun _ => 0xab) 1) 1) := by
  have hrun : (writeMultiBytes 180000000 refusing 0 0x50 (fun _ => 0xab) 1 4).map
      (fun r => (r.1.len, r.2.sent, r.2.acks)) = some (1, [0xa0, 0xab], [true, false]) := by decide
  refine ⟨hrun, ?_⟩
  rintro ⟨n, r, hr, hlaw⟩
  obtain ⟨r', hr', he⟩ := Option.map_eq_some_iff.mp hrun
  rw [transfer_unique hr' hr] at he
  obtain ⟨hlen, -, hacks⟩ : r.1.len = 1 ∧ r.2.sent = [0xa0, 0xab] ∧ r.2.acks = [true, false] := by
    simpa using he
  have hfull := hlaw.full hlen
  rw [hacks] at hfull
  revert hfull
  decide

end Ma35d1.I2c
