import KnockKnock.Mqtt.Dialogue
import KnockKnock.Support.Assertion

/-!
# Rules for exchanges

What an exchange promises of its bytes when it succeeds; a failed one has
promised nothing.  There is one rule for each operation, and one for the loop
with which the MQTT client and the broker read a packet.
-/

namespace KnockKnock

open Program

namespace Exchange

variable {α β : Type} {I : Bytes → Bytes → Prop} {J : α → Bytes → Bytes → Prop}
  {r w : Bytes}

/-- `I` at any time, and `J` with a result. -/
def promise (I : Bytes → Bytes → Prop) (J : α → Bytes → Bytes → Prop) :
    Promise UInt8 (Outcome α) where
  always := I
  after
    | .ok a => J a
    | .error _ => fun _ _ => True

theorem keeps_pure {a : α} (hI : I r w) (hJ : J a r w) :
    Keeps (promise I J) (pure a : Exchange α).run r w := ⟨hI, hJ⟩

/-- The first part of a sequence leads to the second, or to its own error. -/
def before (P : Promise UInt8 (Outcome α)) (f : β → Exchange α) :
    Promise UInt8 (Outcome β) where
  always := P.always
  after
    | .ok b => Keeps P (f b).run
    | .error e => P.after (.error e)

theorem keeps_bind {P : Promise UInt8 (Outcome α)} {x : Exchange β}
    {f : β → Exchange α} (h : Keeps (before P f) x.run r w) :
    Keeps P (x >>= f).run r w := by
  refine Keeps.bind (h.mono (fun _ _ => id) fun o r w hI hafter => ?_)
  cases o with
  | ok b => exact hafter
  | error e => exact ⟨hI, hafter⟩

theorem keeps_lift_bind {o : Outcome β} {f : β → Exchange α} (hI : I r w)
    (h : ∀ b, o = .ok b → Keeps (promise I J) (f b).run r w) :
    Keeps (promise I J) (lift o >>= f).run r w := by
  apply keeps_bind
  cases o with
  | ok b => exact ⟨hI, h b rfl⟩
  | error e => exact ⟨hI, trivial⟩

theorem keeps_writeAll {P : Promise UInt8 (Outcome Unit)} {bytes : Bytes}
    (hpart : ∀ front, front <+: bytes → P.always r (w ++ front))
    (herror : ∀ e front, front <+: bytes → P.after (.error e) r (w ++ front))
    (hok : P.after (.ok ()) r (w ++ bytes)) :
    Keeps P (writeAll bytes).run r w :=
  ⟨hpart, ⟨hpart _ List.prefix_rfl, hok⟩, fun e front hfront =>
    ⟨hpart front hfront, herror e front hfront⟩⟩

theorem keeps_writeAll_bind {bytes : Bytes} {f : Unit → Exchange α}
    (hpart : ∀ front, front <+: bytes → I r (w ++ front))
    (h : Keeps (promise I J) (f ()).run r (w ++ bytes)) :
    Keeps (promise I J) (writeAll bytes >>= f).run r w :=
  keeps_bind (keeps_writeAll hpart (fun _ _ _ => trivial) h)

theorem keeps_read_bind {n : ℕ} {f : Bytes → Exchange α} (hI : I r w)
    (h : ∀ chunk, chunk.length ≤ n →
      Keeps (promise I J) (f chunk).run (r ++ chunk) w) :
    Keeps (promise I J) (read n >>= f).run r w := by
  apply keeps_bind
  exact ⟨hI, fun chunk hle => ⟨(h chunk hle).always, h chunk hle⟩,
    fun _ => ⟨hI, trivial⟩⟩

theorem keeps_readExactOr {P : Promise UInt8 (Outcome Bytes)} {early : Text}
    {n : ℕ} (hpart : ∀ chunk, chunk.length ≤ n → P.always (r ++ chunk) w)
    (herror : ∀ e chunk, chunk.length < n → P.after (.error e) (r ++ chunk) w)
    (hok : ∀ chunk, chunk.length = n → P.after (.ok chunk) (r ++ chunk) w) :
    Keeps P (readExactOr early n).run r w := by
  refine ⟨hpart, fun chunk hlength => ⟨hpart chunk (by omega), hok chunk hlength⟩,
    fun e chunk hlt => ⟨hpart chunk (by omega), ?_⟩⟩
  cases e with
  | none => exact herror _ chunk hlt
  | some e => exact herror e chunk hlt

theorem keeps_readExactOr_bind {early : Text} {n : ℕ} {f : Bytes → Exchange α}
    (hpart : ∀ chunk, chunk.length ≤ n → I (r ++ chunk) w)
    (h : ∀ chunk, chunk.length = n →
      Keeps (promise I J) (f chunk).run (r ++ chunk) w) :
    Keeps (promise I J) (readExactOr early n >>= f).run r w :=
  keeps_bind (keeps_readExactOr hpart (fun _ _ _ => trivial) h)

end Exchange

namespace Mqtt

variable {τ : Type} {early : Text} {make : UInt8 → Bytes → τ} {r w : Bytes}
  {P : Promise UInt8 (Outcome τ)}

theorem keeps_readBodyWith {P : Promise UInt8 (Outcome Bytes)} {n : ℕ}
    (halways : ∀ more, P.always (r ++ more) w)
    (herror : ∀ e more, P.after (.error e) (r ++ more) w)
    (hok : ∀ body : Bytes, body.length = n → P.after (.ok body) (r ++ body) w) :
    Keeps P (readBodyWith early n).run r w := by
  rw [readBodyWith]
  by_cases hn : 0 < n
  · rw [if_pos hn]
    exact Exchange.keeps_readExactOr (fun chunk _ => halways chunk)
      (fun e chunk _ => herror e chunk) hok
  · rw [if_neg hn]
    have hnow := halways []
    have hdone := hok [] (Nat.eq_zero_of_not_pos hn).symm
    rw [List.append_nil] at hnow hdone
    exact ⟨hnow, hdone⟩

/-- The loop ends behind the digits of a length and a body of that length. -/
theorem keeps_readRemainingWith (header : UInt8)
    {rounds multiplier remaining : ℕ} (hsmall : multiplier * 128 ^ rounds < 2 ^ 64)
    (halways : ∀ more, P.always (r ++ more) w)
    (herror : ∀ e more, P.after (.error e) (r ++ more) w)
    (hok : ∀ digits body, Varint.Digits digits → digits.length ≤ rounds →
      body.length = remaining + Varint.value digits * multiplier →
      P.after (.ok (make header body)) (r ++ (digits ++ body)) w) :
    Keeps P (readRemainingWith early make header rounds multiplier
      remaining).run r w := by
  induction rounds generalizing r multiplier remaining with
  | zero =>
      have hnow := halways []
      have hfail := herror (.error .other
        "MQTT remaining-length varint exceeds 4 bytes".toList) []
      rw [List.append_nil] at hnow hfail
      exact ⟨hnow, hfail⟩
  | succ rounds ih =>
      rw [Nat.pow_succ', ← Nat.mul_assoc] at hsmall
      have hstep : multiplier * 128 < 2 ^ 64 :=
        lt_of_le_of_lt (Nat.le_mul_of_pos_right _
          (Nat.pow_pos (by decide))) hsmall
      rw [readRemainingWith]
      apply Exchange.keeps_bind
      refine Exchange.keeps_readExactOr (fun chunk _ => halways chunk)
        (fun e chunk _ => herror e chunk) fun chunk hchunk => ?_
      obtain ⟨b, rfl⟩ := List.length_eq_one_iff.mp hchunk
      change Keeps P (ExceptT.run (if _ then _ else _)) _ _
      rw [List.headD_cons, and_low_bits, saturatingMul_eq hstep]
      simp only [and_top_bit]
      have halways' : ∀ more, P.always (r ++ [b] ++ more) w := by
        intro more
        rw [List.append_assoc]
        exact halways _
      have herror' : ∀ e more, P.after (.error e) (r ++ [b] ++ more) w := by
        intro e more
        rw [List.append_assoc]
        exact herror e _
      by_cases hlast : b.toNat < 128
      · rw [if_pos hlast]
        apply Exchange.keeps_bind
        refine keeps_readBodyWith halways' herror' fun body hbody => ?_
        refine ⟨halways' body, ?_⟩
        rw [List.append_assoc]
        exact hok [b] body (Varint.digits_singleton hlast) (by simp)
          (by simpa [Varint.value] using hbody)
      · rw [if_neg hlast]
        refine ih hsmall halways' herror' fun digits body hdigits hle hbody => ?_
        rw [List.append_assoc]
        refine hok (b :: digits) body
          ((Varint.digits_cons_iff hdigits.ne_nil).mpr ⟨by omega, hdigits⟩)
          (by simpa using hle) ?_
        rw [hbody, Varint.value]
        ring

/-- A packet that has been read is spelled by the bytes read for it. -/
theorem keeps_readPacketWith (halways : ∀ more, P.always (r ++ more) w)
    (herror : ∀ e more, P.after (.error e) (r ++ more) w)
    (hok : ∀ (packet : MqttPacket) (spelled : Bytes), packet.Spelled spelled →
      P.after (.ok (make packet.packetType packet.body)) (r ++ spelled) w) :
    Keeps P (readPacketWith early make).run r w := by
  rw [readPacketWith]
  apply Exchange.keeps_bind
  refine Exchange.keeps_readExactOr (fun chunk _ => halways chunk)
    (fun e chunk _ => herror e chunk) fun chunk hchunk => ?_
  obtain ⟨header, rfl⟩ := List.length_eq_one_iff.mp hchunk
  refine keeps_readRemainingWith header (by decide)
    (fun more => ?_) (fun e more => ?_) fun digits body hdigits hle hbody => ?_
  · rw [List.append_assoc]
    exact halways _
  · rw [List.append_assoc]
    exact herror e _
  · rw [List.append_assoc]
    exact hok ⟨header, body⟩ _
      ⟨digits, rfl, hdigits, hle, by simpa using hbody.symm⟩

end Mqtt

end KnockKnock
