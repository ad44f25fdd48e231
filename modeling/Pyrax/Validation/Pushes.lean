import Pyrax.Validation.Rules

/-!
# Which unlocking scripts are accepted

`verify_p2pkh_signature` of `pyrax-node/src/validation/mod.rs` reads two pushes out of an
unlocking script, each a length byte and as many bytes, and looks at nothing behind them.
`verify_ok_iff` says once what it accepts: two pushes that unlock (`Unlocks`), and any rest.
The two pushes of a script are determined (`TwoPushes.unique`).
-/

namespace Pyrax.Validation

open Base

variable {C : Crypto}

/-! ## Two pushes -/

theorem getD_drop (bytes : List UInt8) (i : Nat) : (bytes.drop i).getD 0 0 = bytes.getD i 0 := by
  rw [List.getD_eq_getElem?_getD, List.getD_eq_getElem?_getD, List.getElem?_drop, Nat.add_zero]

/-- A length byte and the bytes. -/
def push (bytes : List UInt8) : List UInt8 := UInt8.ofNat bytes.length :: bytes

/-- The script is two pushes and a rest. -/
structure TwoPushes (scriptSig signature pubkey rest : List UInt8) : Prop where
  signature_lt : signature.length < 256
  pubkey_lt : pubkey.length < 256
  layout : scriptSig = push signature ++ (push pubkey ++ rest)

/-- The documented form: `<sig_len> <signature> <pubkey_len> <pubkey>`. -/
def Documented (scriptSig : List UInt8) : Prop :=
  ∃ signature pubkey, TwoPushes scriptSig signature pubkey []

/-- What the two pushes have to do with the locking script and the hash. -/
structure Unlocks (C : Crypto) (signature pubkey scriptPubkey : List UInt8) (signingHash : H256) :
    Prop where
  p2pkh : isP2pkhScript scriptPubkey = true
  hash : hash160 C pubkey = (scriptPubkey.drop 3).take 20
  signed : ∃ parsed key, parseSignature C signature signature.length = .ok parsed ∧
    C.verifyingKeyFromSec1 pubkey = some key ∧ C.verify key signingHash.asBytes parsed = true

section Pushes

variable {scriptSig signature pubkey rest signature' pubkey' rest' : List UInt8}
  {scriptPubkey : List UInt8} {signingHash : H256}

theorem toNat_push {bytes : List UInt8} (h : bytes.length < 256) :
    (UInt8.ofNat bytes.length).toNat = bytes.length := UInt8.toNat_ofNat_of_lt' h

/-- A push ends by itself. -/
theorem push_append_inj {bytes bytes' tail tail' : List UInt8} (h : bytes.length < 256)
    (h' : bytes'.length < 256) (heq : push bytes ++ tail = push bytes' ++ tail') :
    bytes = bytes' ∧ tail = tail' := by
  obtain ⟨hlength, hrest⟩ := List.cons_eq_cons.mp heq
  have hsame := congrArg UInt8.toNat hlength
  rw [toNat_push h, toNat_push h'] at hsame
  exact List.append_inj hrest hsame

/-- A script is two pushes in one way. -/
theorem TwoPushes.unique (h : TwoPushes scriptSig signature pubkey rest)
    (h' : TwoPushes scriptSig signature' pubkey' rest') :
    signature = signature' ∧ pubkey = pubkey' ∧ rest = rest' := by
  obtain ⟨hsignature, hbehind⟩ :=
    push_append_inj h.signature_lt h'.signature_lt (h.layout.symm.trans h'.layout)
  exact ⟨hsignature, push_append_inj h.pubkey_lt h'.pubkey_lt hbehind⟩

theorem TwoPushes.append (h : TwoPushes scriptSig signature pubkey rest) (tail : List UInt8) :
    TwoPushes (scriptSig ++ tail) signature pubkey (rest ++ tail) := by
  refine ⟨h.signature_lt, h.pubkey_lt, ?_⟩
  rw [h.layout]
  simp only [List.append_assoc]

/-- What the function reads off two pushes. -/
theorem TwoPushes.reads (h : TwoPushes scriptSig signature pubkey rest) :
    scriptSig.length = 1 + signature.length + 1 + pubkey.length + rest.length ∧
      (scriptSig.getD 0 0).toNat = signature.length ∧
      (scriptSig.drop 1).take signature.length = signature ∧
      (scriptSig.getD (1 + signature.length) 0).toNat = pubkey.length ∧
      (scriptSig.drop (1 + signature.length + 1)).take pubkey.length = pubkey := by
  have hdrop : scriptSig.drop (1 + signature.length) = push pubkey ++ rest := by
    rw [h.layout]
    refine List.drop_left' ?_
    rw [push, List.length_cons, Nat.add_comm]
  refine ⟨?_, ?_, ?_, ?_, ?_⟩
  · rw [h.layout]
    simp only [push, List.length_append, List.length_cons]
    omega
  · rw [h.layout]
    exact toNat_push h.signature_lt
  · rw [h.layout]
    exact List.take_left' rfl
  · rw [← getD_drop, hdrop]
    exact toNat_push h.pubkey_lt
  · rw [← List.drop_drop, hdrop]
    exact List.take_left' rfl

/-- With room enough for both lengths the script is two pushes. -/
theorem exists_twoPushes (hsig : 1 + (scriptSig.getD 0 0).toNat + 1 ≤ scriptSig.length)
    (hpubkey : 1 + (scriptSig.getD 0 0).toNat + 1 +
      (scriptSig.getD (1 + (scriptSig.getD 0 0).toNat) 0).toNat ≤ scriptSig.length) :
    ∃ signature pubkey rest, TwoPushes scriptSig signature pubkey rest := by
  have hcut : ∀ bytes : List UInt8, 1 + (bytes.getD 0 0).toNat ≤ bytes.length →
      ((bytes.drop 1).take (bytes.getD 0 0).toNat).length < 256 ∧
      bytes = push ((bytes.drop 1).take (bytes.getD 0 0).toNat) ++
        bytes.drop (1 + (bytes.getD 0 0).toNat) := by
    intro bytes hroom
    have hlength : ((bytes.drop 1).take (bytes.getD 0 0).toNat).length =
        (bytes.getD 0 0).toNat := by
      rw [List.length_take, List.length_drop]
      omega
    refine ⟨by rw [hlength]; exact UInt8.toNat_lt _, ?_⟩
    rw [push, hlength, UInt8.ofNat_toNat, List.cons_append, ← List.drop_drop,
      List.take_append_drop]
    cases bytes with
    | nil => exact absurd hroom (by simp)
    | cons byte bytes => rfl
  obtain ⟨hsigLt, hsigCut⟩ := hcut scriptSig (by omega)
  obtain ⟨hpubkeyLt, hpubkeyCut⟩ :=
    hcut (scriptSig.drop (1 + (scriptSig.getD 0 0).toNat)) (by
      rw [getD_drop, List.length_drop]
      omega)
  exact ⟨_, _, _, hsigLt, hpubkeyLt, hsigCut.trans (congrArg (push _ ++ ·) hpubkeyCut)⟩

/-! ## When a script is accepted -/

theorem verify_ok_of_twoPushes_iff (h : TwoPushes scriptSig signature pubkey rest) :
    verifyP2pkhSignature C scriptSig scriptPubkey signingHash = .ok () ↔
      Unlocks C signature pubkey scriptPubkey signingHash := by
  obtain ⟨hlength, hsigLen, hsig, hpubkeyLen, hpubkey⟩ := h.reads
  simp only [verifyP2pkhSignature, failIf_bind_eq_ok, hsigLen, hpubkeyLen, hsig, hpubkey]
  constructor
  · rintro ⟨_, _, _, hp2pkh, hhash, hrest⟩
    obtain ⟨parsed, hparsed, hrest⟩ := bind_eq_ok.mp hrest
    obtain ⟨key, hkey, hverify⟩ := bind_eq_ok.mp hrest
    rw [failIf_eq_ok] at hverify
    exact ⟨Bool.eq_true_of_not_eq_false hp2pkh, not_not.mp hhash, parsed, key, hparsed,
      okOr_eq_ok.mp hkey, Bool.eq_true_of_not_eq_false hverify⟩
  · rintro ⟨hp2pkh, hhash, parsed, key, hparsed, hkey, hverify⟩
    refine ⟨by omega, by omega, by omega, by rw [hp2pkh]; exact Bool.false_ne_true.symm,
      not_not.mpr hhash, ?_⟩
    refine bind_eq_ok.mpr ⟨parsed, hparsed, bind_eq_ok.mpr ⟨key, okOr_eq_ok.mpr hkey, ?_⟩⟩
    rw [failIf_eq_ok, hverify]
    exact Bool.false_ne_true.symm

/-- **Acceptance.** What is accepted is two pushes that unlock, and anything behind them. -/
theorem verify_ok_iff :
    verifyP2pkhSignature C scriptSig scriptPubkey signingHash = .ok () ↔
      ∃ signature pubkey rest, TwoPushes scriptSig signature pubkey rest ∧
        Unlocks C signature pubkey scriptPubkey signingHash := by
  constructor
  · intro h
    have hroom := h
    simp only [verifyP2pkhSignature, failIf_bind_eq_ok] at hroom
    obtain ⟨_, hsig, hpubkey, _⟩ := hroom
    obtain ⟨signature, pubkey, rest, hpushes⟩ :=
      exists_twoPushes (Nat.le_of_not_lt hsig) (Nat.le_of_not_lt hpubkey)
    exact ⟨signature, pubkey, rest, hpushes, (verify_ok_of_twoPushes_iff hpushes).mp h⟩
  · rintro ⟨signature, pubkey, rest, hpushes, hunlocks⟩
    exact (verify_ok_of_twoPushes_iff hpushes).mpr hunlocks

end Pushes

end Pyrax.Validation
