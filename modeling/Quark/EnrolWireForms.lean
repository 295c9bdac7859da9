import Quark.EnrolWireText
import Quark.Lib.Layout
import Quark.RevocationRegistry

/-! Every form the enrolment channel and the revocation gossip carry is read back as what was
written, and a value has one form that is accepted. -/
namespace Quark.Enrol.Wire

open List Layout Bytes
open Revocation (SignedRevocation)

theorem fail_guard_eq_ok {α : Type} {p : Prop} [Decidable p] {code : Quark.Errc} {detail : String}
    {k : Result α} {a : α} :
    (if p then fail code detail else k) = .ok a ↔ ¬p ∧ k = .ok a := by
  by_cases hp : p
  · simp [fail, hp]
  · simp [hp]

def JoinCode.Anchored (c : JoinCode) : Prop := c.anchorPort ≠ 0 ∧ c.anchorNode ≠ 0 ∧ c.anchorNode >>> 63 = 0

section

variable {b : List UInt8}

theorem copyN_eq {off n : Nat} (h : off + n ≤ b.length) : copyN b off n h = (Layout.octets n).get (b.drop off) :=
  (Layout.octets_get (by rw [length_drop]; omega) _).symm

def joinCodeLayout : Layout ({ magic : List UInt8 // magic.length = 4 } × UInt32 × UInt16 × UInt64 × UInt64 ×
    RootHash × TicketId × TicketSecret) :=
  (Layout.octets 4).seq (Layout.u32.seq (Layout.u16.seq (Layout.u64.seq (Layout.u64.seq
    ((Layout.octets 32).seq ((Layout.octets 16).seq (Layout.octets 32)))))))

def JoinCode.fields (c : JoinCode) : { magic : List UInt8 // magic.length = 4 } × UInt32 × UInt16 × UInt64 × UInt64 ×
    RootHash × TicketId × TicketSecret :=
  (⟨kMagic, rfl⟩, c.anchorAddr, c.anchorPort, c.anchorNode, c.cluster, c.caRootSha256, c.ticketId, c.ticketSecret)

theorem joinCodeAt_iff {c : JoinCode} (h : b.length = kJoinCodeBytes) :
    b = encodeJoinCodeBinary c ↔ b.take 4 = kMagic ∧ joinCodeAt b h = c := by
  have hform : encodeJoinCodeBinary c = joinCodeLayout.put c.fields := rfl
  have hread : joinCodeLayout.get b = (⟨b.take 4, by rw [length_take, h]; rfl⟩, (joinCodeAt b h).fields.2) := by
    simp only [joinCodeLayout, Layout.seq, JoinCode.fields, joinCodeAt, copyN_eq, drop_drop]
    rw [octets_get (by rw [h]; decide)]
    rfl
  have hsame : ∀ c' : JoinCode, c'.fields.2 = c.fields.2 ↔ c' = c := by
    intro c'
    cases c
    cases c'
    simp only [JoinCode.fields, Prod.mk.injEq, JoinCode.mk.injEq]
  rw [hform, eq_put_iff, and_iff_right (h.trans rfl : b.length = joinCodeLayout.width), hread, Prod.ext_iff]
  exact and_congr Subtype.mk_eq_mk (hsame _)

theorem encodeJoinCodeBinary_length (c : JoinCode) : (encodeJoinCodeBinary c).length = kJoinCodeBytes :=
  joinCodeLayout.put_length c.fields

theorem decodeJoinCodeBinary_eq_ok {c : JoinCode} :
    decodeJoinCodeBinary b = .ok c ↔ b = encodeJoinCodeBinary c ∧ c.Anchored := by
  by_cases h : b.length = kJoinCodeBytes
  · rw [joinCodeAt_iff h, decodeJoinCodeBinary, dif_pos h]
    simp only [fail_guard_eq_ok, JoinCode.Anchored, Except.ok.injEq]
    constructor
    · rintro ⟨hmagic, hport, hnode, hmember, rfl⟩
      exact ⟨⟨not_not.mp hmagic, rfl⟩, hport, hnode, not_not.mp hmember⟩
    · rintro ⟨⟨hmagic, rfl⟩, hport, hnode, hmember⟩
      exact ⟨not_not.mpr hmagic, hport, hnode, not_not.mpr hmember, rfl⟩
  · rw [decodeJoinCodeBinary, dif_neg h]
    simp only [fail, reduceCtorEq, false_iff, not_and]
    rintro rfl
    exact absurd (encodeJoinCodeBinary_length c) h

theorem headD_eq (b : List UInt8) : b.headD 0 = u8.get b := by
  cases b with
  | nil => rfl
  | cons x rest => exact UInt8.ofNat_toNat.symm

theorem getD_eq (b : List UInt8) (n : Nat) : b.getD n 0 = u8.get (b.drop n) := by
  rw [← headD_eq, headD_eq_head?_getD, head?_drop, getD_eq_getElem?_getD]

def requestLayout : Layout (UInt8 × TicketId × MacTag × UInt16) :=
  Layout.u8.seq ((Layout.octets 16).seq ((Layout.octets 32).seq Layout.u16))

theorem toNat_eq_iff {n : Nat} {w : UInt16} (hn : n < 2 ^ 16) : w = UInt16.ofNat n ↔ w.toNat = n := by
  constructor
  · rintro rfl
    exact UInt16.toNat_ofNat_of_lt' hn
  · rintro rfl
    exact UInt16.ofNat_toNat.symm

theorem encodeRequest_eq_ok {r : EnrolRequest} : encodeRequest r = .ok b ↔
    (r.csrDer ≠ [] ∧ r.csrDer.length ≤ kMaxCsrBytes) ∧
      b = requestLayout.put (kRequestKind, r.ticketId, r.tag, UInt16.ofNat r.csrDer.length) ++ r.csrDer := by
  have hform : kRequestKind ::
    (r.ticketId.val ++ (r.tag.val ++ (putU16 (UInt16.ofNat r.csrDer.length) ++ r.csrDer))) =
      requestLayout.put (kRequestKind, r.ticketId, r.tag, UInt16.ofNat r.csrDer.length) ++ r.csrDer := by
    simp only [requestLayout, seq, append_assoc]
    rfl
  rw [encodeRequest, hform]
  split <;> rename_i h
  · simp only [fail, reduceCtorEq, false_iff, not_and]
    intro hfit
    exact absurd h (not_or.mpr ⟨hfit.1, Nat.not_lt.mpr hfit.2⟩)
  · rw [Except.ok.injEq, eq_comm]
    exact (and_iff_right ⟨(not_or.mp h).1, Nat.not_lt.mp (not_or.mp h).2⟩).symm

theorem decodeRequest_eq_ok {r : EnrolRequest} : decodeRequest b = .ok r ↔ encodeRequest r = .ok b ∧
    r.source = [] := by
  by_cases h : kFixed ≤ b.length
  · have hread : requestLayout.get b = (b.headD 0, (requestAt b h).ticketId, (requestAt b h).tag,
        getU16 (b.drop 49)) := by
      simp only [requestLayout, seq, requestAt, copyN_eq, drop_drop, headD_eq]
      rfl
    rw [encodeRequest_eq_ok, eq_put_append_iff, hread, decodeRequest, dif_pos h]
    simp only [fail_guard_eq_ok, Except.ok.injEq]
    constructor
    · rintro ⟨hkind, hbounds, hsize, rfl⟩
      have hcsr : (b.drop kFixed).length = (getU16 (b.drop 49)).toNat := by
        rw [length_drop, not_not.mp hsize, Nat.add_sub_cancel_left]
      refine ⟨⟨⟨?_, ?_⟩, h, ?_, rfl⟩, rfl⟩
      · intro hnil
        exact hbounds (.inl (hcsr.symm.trans (congrArg List.length hnil)))
      · exact hcsr.trans_le (Nat.not_lt.mp fun hover => hbounds (.inr hover))
      · have hn : getU16 (b.drop 49) = UInt16.ofNat (b.drop kFixed).length := by rw [hcsr, UInt16.ofNat_toNat]
        rw [not_not.mp hkind, hn]
        rfl
    · rintro ⟨⟨⟨hne, hmax⟩, -, hfields, hcsr⟩, hsource⟩
      obtain ⟨hkind, hid, htag, hn⟩ := by simpa only [Prod.mk.injEq] using hfields
      have hcsr : b.drop kFixed = r.csrDer := hcsr
      have hsize : (getU16 (b.drop 49)).toNat = r.csrDer.length :=
        (toNat_eq_iff (lt_of_le_of_lt hmax (by decide))).mp hn
      have hlen : b.length = kFixed + r.csrDer.length := by
        rw [← hcsr, length_drop, Nat.add_sub_of_le h]
      have hrequest : requestAt b h = r := by
        cases r
        simp only [requestAt] at hid htag hcsr hsource ⊢
        rw [hid, htag, hcsr, hsource]
      have hbounds : ¬ (r.csrDer.length = 0 ∨ kMaxCsrBytes < r.csrDer.length) :=
        not_or.mpr ⟨fun hzero => hne (length_eq_zero_iff.mp hzero), Nat.not_lt.mpr hmax⟩
      rw [hsize]
      exact ⟨not_not.mpr hkind, hbounds, not_not.mpr hlen, hrequest⟩
  · rw [decodeRequest, dif_neg h, encodeRequest_eq_ok, eq_put_append_iff]
    simp only [fail, reduceCtorEq, false_iff]
    rintro ⟨⟨-, hlen, -⟩, -⟩
    exact h hlen

def replyLayout : Layout (UInt8 × UInt8 × UInt16) := Layout.u8.seq (Layout.u8.seq Layout.u16)

/-- Only an issued certificate has a chain, and it has one. -/
structure WireReply.Carries (r : WireReply) : Prop where
  issued : r.status = .issued → r.certChainDer ≠ [] ∧ r.certChainDer.length ≤ kMaxChainBytes
  refused : r.status ≠ .issued → r.certChainDer = []

theorem WireReply.Carries.length_le {r : WireReply} (h : r.Carries) : r.certChainDer.length ≤ kMaxChainBytes := by
  by_cases hissued : r.status = .issued
  · exact (h.issued hissued).2
  · rw [h.refused hissued]
    exact Nat.zero_le _

theorem encodeReply_eq_ok {r : WireReply} : encodeReply r = .ok b ↔ r.Carries ∧
    b = replyLayout.put (kReplyKind, r.status.value, UInt16.ofNat r.certChainDer.length) ++ r.certChainDer := by
  have hform : kReplyKind :: r.status.value :: (putU16 (UInt16.ofNat r.certChainDer.length) ++ r.certChainDer) =
      replyLayout.put (kReplyKind, r.status.value, UInt16.ofNat r.certChainDer.length) ++ r.certChainDer := by
    simp only [replyLayout, seq, append_assoc, put_u8]
    rfl
  rw [encodeReply, hform]
  by_cases hissued : r.status = .issued
  · rw [if_pos hissued]
    split <;> rename_i h
    · simp only [fail, reduceCtorEq, false_iff, not_and]
      intro hcarries
      obtain ⟨hne, hle⟩ := hcarries.issued hissued
      exact absurd h (not_or.mpr ⟨hne, Nat.not_lt.mpr hle⟩)
    · obtain ⟨hne, hle⟩ := not_or.mp h
      have hcarries : r.Carries := ⟨fun _ => ⟨hne, Nat.not_lt.mp hle⟩, fun hother => absurd hissued hother⟩
      rw [Except.ok.injEq, eq_comm, and_iff_right hcarries]
  · rw [if_neg hissued]
    split <;> rename_i h
    · simp only [fail, reduceCtorEq, false_iff, not_and]
      intro hcarries
      exact absurd (hcarries.refused hissued) h
    · have hcarries : r.Carries := ⟨fun hother => absurd hother hissued, fun _ => not_not.mp h⟩
      rw [Except.ok.injEq, eq_comm, and_iff_right hcarries]

theorem decodeReply_eq_ok {r : WireReply} : decodeReply b = .ok r ↔ encodeReply r = .ok b := by
  have hread : replyLayout.get b = (b.headD 0, b.getD 1 0, getU16 (b.drop 2)) := by
    simp only [replyLayout, seq, drop_drop, headD_eq, getD_eq]
    rfl
  rw [encodeReply_eq_ok, eq_put_append_iff, hread, decodeReply]
  simp only [fail_guard_eq_ok, Except.ok.injEq]
  constructor
  · rintro ⟨hshort, hkind, hstatus, hbounds, hsize, hbare, hloaded, rfl⟩
    have hchain : (b.drop 4).length = (getU16 (b.drop 2)).toNat := by
      rw [length_drop, not_not.mp hsize, Nat.add_sub_cancel_left]
    refine ⟨⟨?_, ?_⟩, Nat.not_lt.mp hshort, ?_, rfl⟩
    · intro hissued
      refine ⟨fun hnil => hbare ⟨hissued, ?_⟩, hchain.trans_le (Nat.not_lt.mp hbounds)⟩
      exact hchain.symm.trans (congrArg List.length hnil)
    · intro hother
      apply length_eq_zero_iff.mp
      rw [hchain]
      by_contra hpos
      exact hloaded ⟨hother, hpos⟩
    · have hn : getU16 (b.drop 2) = UInt16.ofNat (b.drop 4).length := by rw [hchain, UInt16.ofNat_toNat]
      rw [not_not.mp hkind, hn, WireStatus.value_ofValue (UInt8.not_lt.mp hstatus)]
  · rintro ⟨hcarries, hlen, hfields, hchain⟩
    obtain ⟨hkind, hstatus, hn⟩ := by simpa only [Prod.mk.injEq] using hfields
    have hchain : b.drop 4 = r.certChainDer := hchain
    have hlen : 4 ≤ b.length := hlen
    have hsize : (getU16 (b.drop 2)).toNat = r.certChainDer.length :=
      (toNat_eq_iff (lt_of_le_of_lt hcarries.length_le (by decide))).mp hn
    have hwhole : b.length = 4 + r.certChainDer.length := by
      rw [← hchain, length_drop, Nat.add_sub_of_le hlen]
    have hbare : ¬ (r.status = .issued ∧ r.certChainDer.length = 0) := by
      rintro ⟨hissued, hzero⟩
      exact (hcarries.issued hissued).1 (length_eq_zero_iff.mp hzero)
    have hloaded : ¬ (r.status ≠ .issued ∧ r.certChainDer.length ≠ 0) := by
      rintro ⟨hother, hpos⟩
      exact hpos (length_eq_zero_iff.mpr (hcarries.refused hother))
    rw [hstatus, hsize, WireStatus.ofValue_value, hchain]
    exact ⟨Nat.not_lt.mpr hlen, not_not.mpr hkind, UInt8.not_lt.mpr r.status.value_le,
      Nat.not_lt.mpr hcarries.length_le, not_not.mpr hwhole, hbare, hloaded, rfl⟩

def signedLayout : Layout ({ domain : List UInt8 // domain.length = 16 } × UInt64 × Swim.Fingerprint ×
    UInt64 × UInt64 ×
    Revocation.AnchorKeyId × UInt8) :=
  (Layout.octets 16).seq (Layout.u64.seq ((Layout.octets 32).seq (Layout.u64.seq (Layout.u64.seq
    ((Layout.octets 32).seq Layout.u8)))))

def Signed (r : SignedRevocation) : Prop :=
  1 ≤ r.signature.length ∧ r.signature.length ≤ Revocation.kMaxRevocationSignatureBytes

theorem encodeSignedRevocation_eq (r : SignedRevocation) : Revocation.encodeSignedRevocation r =
    signedLayout.put (⟨Revocation.kRevocationDomain, rfl⟩, r.cluster, r.fingerprint, r.notAfter, r.issuedAt,
      r.anchorKeyId, UInt8.ofNat r.signature.length) ++ r.signature := by
  simp only [Revocation.encodeSignedRevocation, Revocation.revocationSignedBytes, signedLayout, seq,
    append_assoc, put_u8]
  rfl

theorem decodeSignedRevocation_eq_some {r : SignedRevocation} : Revocation.decodeSignedRevocation b = some r ↔
    b = Revocation.encodeSignedRevocation r ∧ Signed r := by
  rw [encodeSignedRevocation_eq, eq_put_append_iff]
  by_cases h : b.length < Revocation.kRevocationSignedBytes + 1 ∨ Revocation.kMaxSignedRevocationWireBytes < b.length
  · rw [Revocation.decodeSignedRevocation, dif_pos h]
    simp only [reduceCtorEq, false_iff]
    rintro ⟨⟨hlen, -, hsig⟩, -, hmax⟩
    have hlen : 105 ≤ b.length := hlen
    have hsig : b.drop 105 = r.signature := hsig
    rw [← hsig, length_drop] at hmax
    rcases h with hshort | hlong
    · exact absurd hlen (Nat.not_le.mpr hshort)
    · exact absurd (Nat.sub_le_iff_le_add'.mp hmax) (Nat.not_le.mpr hlong)
  · obtain ⟨hlen, hlong⟩ := not_or.mp h
    have hlen : 105 ≤ b.length := Nat.not_lt.mp hlen
    have hread : signedLayout.get b = (⟨b.take 16, length_take_of_le (by omega)⟩, getU64 (b.drop 16),
        copyN b 24 32 (by omega), getU64 (b.drop 56), getU64 (b.drop 64), copyN b 72 32 (by omega),
        b.getD Revocation.kRevocationSignedBytes 0) := by
      simp only [signedLayout, seq, drop_drop, copyN_eq, getD_eq]
      rw [octets_get (by omega)]
      rfl
    rw [hread, Revocation.decodeSignedRevocation, dif_neg h]
    constructor
    · intro hsome
      split at hsome
      · cases hsome
      rename_i hdomain
      dsimp only at hsome
      split at hsome
      · cases hsome
      rename_i hbounds
      obtain ⟨hpos, hmax, hsize⟩ : _ ∧ _ ∧ _ := by simpa only [not_or] using hbounds
      cases hsome
      have hsig : (b.drop 105).length = (b.getD Revocation.kRevocationSignedBytes 0).toNat := by
        rw [length_drop, not_not.mp hsize]
        exact Nat.add_sub_cancel_left ..
      refine ⟨⟨hlen, ?_, rfl⟩, ?_, ?_⟩
      · have hn : b.getD Revocation.kRevocationSignedBytes 0 = UInt8.ofNat (b.drop 105).length := by
          rw [hsig, UInt8.ofNat_toNat]
        simp only [not_not.mp hdomain]
        rw [hn]
        rfl
      · exact (Nat.one_le_iff_ne_zero.mpr hpos).trans_eq hsig.symm
      · exact hsig.trans_le (Nat.not_lt.mp hmax)
    · rintro ⟨⟨-, hfields, hsig⟩, hpos, hmax⟩
      obtain ⟨hdomain, hcluster, hfp, hafter, hissued, hkey, hn⟩ := by
        simpa only [Prod.mk.injEq] using hfields
      have hdomain : b.take 16 = Revocation.kRevocationDomain := congrArg Subtype.val hdomain
      have hsig : b.drop 105 = r.signature := hsig
      have hsize : (b.getD Revocation.kRevocationSignedBytes 0).toNat = r.signature.length := by
        rw [hn]
        exact UInt8.toNat_ofNat_of_lt' (lt_of_le_of_lt hmax (by decide))
      have hwhole : b.length = Revocation.kRevocationSignedBytes + 1 + r.signature.length := by
        rw [← hsig, length_drop]
        exact (Nat.add_sub_of_le hlen).symm
      have hbounds : ¬ (r.signature.length = 0 ∨ Revocation.kMaxRevocationSignatureBytes < r.signature.length ∨
          b.length ≠ Revocation.kRevocationSignedBytes + 1 + r.signature.length) :=
        not_or.mpr ⟨Nat.one_le_iff_ne_zero.mp hpos, not_or.mpr ⟨Nat.not_lt.mpr hmax, not_not.mpr hwhole⟩⟩
      rw [if_neg (not_not.mpr hdomain)]
      simp only [hsize]
      rw [if_neg hbounds]
      cases r
      simp only [Option.some.injEq, SignedRevocation.mk.injEq]
      exact ⟨hcluster, hfp, hafter, hissued, hkey, hsig⟩

def checksummed (b : List UInt8) : List UInt8 := b ++ putU32 (crc32 b)

theorem flattened_encodeJoinCode (c : JoinCode) :
    flattened (encodeJoinCode c) = base32 (checksummed (encodeJoinCodeBinary c)) :=
  flattened_groupedFrom (plain_base32 _) 0

theorem checksummed_length (c : JoinCode) : (checksummed (encodeJoinCodeBinary c)).length = kJoinCodeBytes + 4 := by
  rw [checksummed, length_append, encodeJoinCodeBinary_length, putU32_length]

theorem encodeJoinCode_length_le (c : JoinCode) : (encodeJoinCode c).length ≤ 4 * kJoinCodeBytes := by
  have hgroups := groupedFrom_length_le (base32 (checksummed (encodeJoinCodeBinary c))) 0
  have hchars := base32_length_le (checksummed (encodeJoinCodeBinary c))
  rw [checksummed_length] at hchars
  apply hgroups.trans
  unfold kJoinCodeBytes at hchars ⊢
  omega

theorem checksum_iff (hlen : b.length = kJoinCodeBytes + 4) :
    getU32 (b.drop kJoinCodeBytes) = crc32 (b.take kJoinCodeBytes) ↔ b = checksummed (b.take kJoinCodeBytes) := by
  have htail : (b.drop kJoinCodeBytes).length = 4 := by rw [length_drop, hlen, Nat.add_sub_cancel_left]
  have hback : putU32 (getU32 (b.drop kJoinCodeBytes)) = b.drop kJoinCodeBytes := by
    rw [putU32_getU32 htail.ge, take_of_length_le htail.le]
  have hsplit : b.take kJoinCodeBytes ++ b.drop kJoinCodeBytes = b := take_append_drop kJoinCodeBytes b
  rw [checksummed]
  constructor
  · intro hcrc
    rw [← hcrc, hback, hsplit]
  · intro hform
    have hdrop := append_cancel_left (hsplit.trans hform)
    rw [hdrop, ← append_nil (putU32 _), getU32_putU32]

theorem decodeJoinCode_eq_ok {text : List UInt8} {c : JoinCode} : decodeJoinCode text = .ok c ↔
    text.length ≤ 4 * kJoinCodeBytes ∧ flattened text = flattened (encodeJoinCode c) ∧ c.Anchored := by
  rw [flattened_encodeJoinCode, decodeJoinCode, fail_guard_eq_ok]
  constructor
  · rintro ⟨hshort, hok⟩
    split at hok
    · cases hok
    rename_i b hread
    obtain ⟨hlen, hcrc, hok⟩ := by simpa only [fail_guard_eq_ok] using hok
    obtain ⟨hbody, hanchor⟩ := decodeJoinCodeBinary_eq_ok.mp hok
    have hform := (checksum_iff (not_not.mp hlen)).mp (not_not.mp hcrc)
    refine ⟨Nat.not_lt.mp hshort, ?_, hanchor⟩
    rw [unbase32_eq_some.mp hread, ← hbody, ← hform]
  · rintro ⟨hshort, hflat, hanchor⟩
    have hbody : (checksummed (encodeJoinCodeBinary c)).take kJoinCodeBytes = encodeJoinCodeBinary c :=
      take_left' (encodeJoinCodeBinary_length c)
    have hcrc := (checksum_iff (checksummed_length c)).mpr (by rw [hbody])
    refine ⟨Nat.not_lt.mpr hshort, ?_⟩
    rw [unbase32_eq_some.mpr hflat]
    dsimp only
    rw [fail_guard_eq_ok, fail_guard_eq_ok]
    refine ⟨not_not.mpr (checksummed_length c), not_not.mpr hcrc, ?_⟩
    rw [hbody]
    exact decodeJoinCodeBinary_eq_ok.mpr ⟨rfl, hanchor⟩

end

/-- Each form is read back as what was written, a request without the source, which the connection
gives; and nothing is accepted but what would be written for the value read. -/
theorem read_iff_written :
    (∀ c : JoinCode, c.Anchored →
      decodeJoinCodeBinary (encodeJoinCodeBinary c) = .ok c ∧ decodeJoinCode (encodeJoinCode c) = .ok c) ∧
    (∀ r b, encodeRequest r = .ok b → decodeRequest b = .ok { r with source := [] }) ∧
    (∀ r b, encodeReply r = .ok b → decodeReply b = .ok r) ∧
    (∀ r, Signed r → Revocation.decodeSignedRevocation (Revocation.encodeSignedRevocation r) = some r) ∧
    (∀ b c, decodeJoinCodeBinary b = .ok c → b = encodeJoinCodeBinary c) ∧
    (∀ text c, decodeJoinCode text = .ok c → flattened text = flattened (encodeJoinCode c)) ∧
    (∀ b r, decodeRequest b = .ok r → encodeRequest r = .ok b) ∧
    (∀ b r, decodeReply b = .ok r → encodeReply r = .ok b) ∧
    (∀ b r, Revocation.decodeSignedRevocation b = some r → b = Revocation.encodeSignedRevocation r) := by
  refine ⟨?_, ?_, ?_, ?_, ?_, ?_, ?_, ?_, ?_⟩
  · intro c hanchor
    exact ⟨decodeJoinCodeBinary_eq_ok.mpr ⟨rfl, hanchor⟩,
      decodeJoinCode_eq_ok.mpr ⟨encodeJoinCode_length_le c, rfl, hanchor⟩⟩
  · intro r b hwritten
    exact decodeRequest_eq_ok.mpr ⟨hwritten, rfl⟩
  · intro r b hwritten
    exact decodeReply_eq_ok.mpr hwritten
  · intro r hsigned
    exact decodeSignedRevocation_eq_some.mpr ⟨rfl, hsigned⟩
  · intro b c hread
    exact (decodeJoinCodeBinary_eq_ok.mp hread).1
  · intro text c hread
    exact (decodeJoinCode_eq_ok.mp hread).2.1
  · intro b r hread
    exact (decodeRequest_eq_ok.mp hread).1
  · intro b r hread
    exact decodeReply_eq_ok.mp hread
  · intro b r hread
    exact (decodeSignedRevocation_eq_some.mp hread).1

def sourced : EnrolRequest where
  ticketId := ⟨List.replicate 16 1, by decide⟩
  csrDer := [0x30]
  tag := ⟨List.replicate 32 2, by decide⟩
  source := [0x31, 0x30]

theorem source_not_on_the_wire : ∃ b, encodeRequest sourced = .ok b ∧ decodeRequest b ≠ .ok sourced := by
  refine ⟨_, rfl, ?_⟩
  intro hread
  have hsource := (decodeRequest_eq_ok.mp hread).2
  cases hsource

end Quark.Enrol.Wire
