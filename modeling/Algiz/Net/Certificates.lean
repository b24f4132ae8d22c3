/-
  `SSLServer::addCertificate`, and what OpenSSL gives it.

  The entry of the host name is erased before anything is read, and nothing asks whether a leaf
  certificate and a private key were read before they are stored. So a call that goes wrong leaves
  the map as it was in one case only: it throws, and the host name had no certificate
  (`kept_iff`). A certificate that comes without a chain throws, so it takes the one that it was
  to renew away (`addCertificate_alone`).
-/
import Algiz.Lib.Loop
import Algiz.Lib.Map
import Algiz.Lib.Trace
import Algiz.Util

namespace Algiz.Net

open Algiz.Lib

/-! ## OpenSSL -/

/-- What a `const char *` to the string shows. -/
def cString (text : Bytes) : Bytes := text.takeWhile (· ≠ 0)

/-- The functions of OpenSSL that are called. `Bio` is a BIO in memory, with whatever else they
    depend on; a pointer that may be null is an option. -/
structure OpenSSL (Bio X509 Key : Type) where
  /-- `BIO_new(BIO_s_mem())` -/
  bioNew : Option Bio
  /-- `BIO_puts` -/
  puts : Bio → Bytes → Int × Bio
  /-- `PEM_read_bio_X509` -/
  readX509 : Bio → Option X509 × Bio
  /-- `PEM_read_bio_PrivateKey` -/
  readPrivateKey : Bio → Option Key × Bio
  /-- how many bytes a BIO holds -/
  pending : Bio → Nat
  puts_nil : ∀ bio, (puts bio []).1 ≤ 0
  /-- what is read is taken out -/
  readX509_pending : ∀ bio x509, (readX509 bio).1 = some x509 →
    pending (readX509 bio).2 < pending bio

/-- `Certificates` -/
structure Certificates (X509 Key : Type) where
  certificate : Option X509 := none
  privateKey : Option Key := none
  chain : List X509 := []
  deriving DecidableEq

/-- There is a leaf certificate, and a private key. -/
def Certificates.Complete {X509 Key : Type} (c : Certificates X509 Key) : Prop :=
  c.certificate ≠ none ∧ c.privateKey ≠ none

namespace OpenSSL

variable {Bio X509 Key : Type} (ssl : OpenSSL Bio X509 Key)

/-- `if (BIO_puts(bio, text.c_str()) <= 0) throw std::runtime_error(what);` -/
def write (bio : Bio) (text what : Bytes) : Except Exception Bio :=
  if (ssl.puts bio (cString text)).1 ≤ 0 then .error (.runtimeError what)
  else .ok (ssl.puts bio (cString text)).2

/-- One turn of the loop that reads the intermediate certificates. -/
def chainTurn (s : Bio × List X509) : Bio × List X509 ⊕ List X509 × Bio :=
  match ssl.readX509 s.1 with
  | (none, bio) => .inr (s.2, bio)
  | (some intermediate, bio) => .inl (bio, s.2 ++ [intermediate])

/-- The loop, for that many turns. -/
def chainFrom : Nat → Bio × List X509 → List X509 × Bio
  | 0, s => (s.2, s.1)
  | turns + 1, s =>
    match ssl.chainTurn s with
    | .inr read => read
    | .inl s => chainFrom turns s

/-- The intermediate certificates, and the BIO after them. -/
def readChain (bio : Bio) : List X509 × Bio := ssl.chainFrom (ssl.pending bio + 1) (bio, [])

/-- What `addCertificate` reads of its three texts. -/
def read (certificate privateKey restOfChain : Bytes) : Except Exception (Certificates X509 Key) :=
  match ssl.bioNew with
  | none => .error (.runtimeError (ascii "Couldn't create BIO"))
  | some bio => do
    let bio ← ssl.write bio certificate (ascii "Couldn't read certificate")
    let (x509, bio) := ssl.readX509 bio
    let bio ← ssl.write bio restOfChain (ascii "Couldn't read rest of chain")
    let (chain, bio) := ssl.readChain bio
    let bio ← ssl.write bio privateKey (ascii "Couldn't read private key")
    let (pkey, _) := ssl.readPrivateKey bio
    .ok ⟨x509, pkey, chain⟩

/-- The loop comes to its end: a certificate that was read is no longer in the BIO. -/
theorem readChain_loop (bio : Bio) : Loop ssl.chainTurn (bio, []) (ssl.readChain bio) := by
  refine Loop.of_fuel (fun _ => True) (fun s => ssl.pending s.1) ?_ ?_ ?_ trivial
    (Nat.lt_succ_self _)
  · intro turns s read _ hturn
    rw [chainFrom, hturn]
  · intro turns s t _ hturn
    rw [chainFrom, hturn]
  · intro s t _ hturn
    refine ⟨trivial, ?_⟩
    unfold chainTurn at hturn
    split at hturn
    · exact nomatch hturn
    · rename_i intermediate bio hread
      have hless := ssl.readX509_pending s.1 intermediate (by rw [hread])
      rw [hread] at hless
      rw [← Sum.inl.inj hturn]
      exact hless

/-! ## What OpenSSL answers -/

/-- The BIO takes the text. -/
def Takes (bio : Bio) (text : Bytes) (bio' : Bio) : Prop :=
  ∃ n, 0 < n ∧ ssl.puts bio (cString text) = (n, bio')

/-- There is a BIO, and it takes one text after the other; these certificates and this key are
    what is read of them. -/
def Reads (certificate privateKey restOfChain : Bytes) (c : Certificates X509 Key) : Prop :=
  ∃ bio bio₁ bio₂ bio₃ bio₄ bio₅ bio₆, ssl.bioNew = some bio ∧
    ssl.Takes bio certificate bio₁ ∧ ssl.readX509 bio₁ = (c.certificate, bio₂) ∧
    ssl.Takes bio₂ restOfChain bio₃ ∧ Loop ssl.chainTurn (bio₃, []) (c.chain, bio₄) ∧
    ssl.Takes bio₄ privateKey bio₅ ∧ ssl.readPrivateKey bio₅ = (c.privateKey, bio₆)

variable {ssl} {certificate privateKey restOfChain : Bytes} {c : Certificates X509 Key}

theorem write_eq_ok {bio bio' : Bio} {text what : Bytes} :
    ssl.write bio text what = .ok bio' ↔ ssl.Takes bio text bio' := by
  unfold write Takes
  obtain ⟨n, bio''⟩ := ssl.puts bio (cString text)
  dsimp only
  split
  · refine iff_of_false (fun h => nomatch h) ?_
    rintro ⟨k, hk, heq⟩
    obtain rfl := (Prod.mk.inj heq).1
    omega
  · constructor
    · intro h
      exact ⟨n, by omega, by rw [Except.ok.inj h]⟩
    · rintro ⟨k, -, heq⟩
      rw [(Prod.mk.inj heq).2]

theorem read_eq_ok : ssl.read certificate privateKey restOfChain = .ok c ↔
    ssl.Reads certificate privateKey restOfChain c := by
  unfold read Reads
  cases ssl.bioNew with
  | none =>
    refine iff_of_false (fun h => nomatch h) ?_
    rintro ⟨bio, -, -, -, -, -, -, hbio, -⟩
    exact nomatch hbio
  | some bio =>
    simp only [except_bind_eq_ok, write_eq_ok]
    constructor
    · rintro ⟨bio₁, h₁, bio₃, h₃, bio₅, h₅, hc⟩
      obtain rfl := Except.ok.inj hc
      exact ⟨bio, bio₁, _, bio₃, _, bio₅, _, rfl, h₁, rfl, h₃, ssl.readChain_loop bio₃, h₅, rfl⟩
    · rintro ⟨bio', bio₁, bio₂, bio₃, bio₄, bio₅, bio₆, hbio, h₁, h₂, h₃, hloop, h₅, h₆⟩
      obtain rfl := Option.some.inj hbio
      have hchain := Loop.unique hloop (ssl.readChain_loop bio₃)
      refine ⟨bio₁, h₁, bio₃, ?_, bio₅, ?_, ?_⟩
      · show ssl.Takes (ssl.readX509 bio₁).2 restOfChain bio₃
        rwa [h₂]
      · rwa [← hchain]
      · show Except.ok ⟨(ssl.readX509 bio₁).1, (ssl.readPrivateKey bio₅).1, _⟩ = Except.ok c
        rw [h₂, ← hchain, h₆]

/-- No BIO takes an empty text. -/
theorem not_takes {bio bio' : Bio} {text : Bytes} (h : cString text = []) :
    ¬ssl.Takes bio text bio' := by
  rintro ⟨n, hn, hputs⟩
  have hnone := ssl.puts_nil bio
  rw [← h, hputs] at hnone
  exact absurd hn (by omega)

end OpenSSL

/-! ## The map -/

section AddCertificate

variable {Bio X509 Key : Type} (ssl : OpenSSL Bio X509 Key)
  (hostname certificate privateKey restOfChain : Bytes) (m : Map Bytes (Certificates X509 Key))

/-- `SSLServer::addCertificate`: how it ends, and the map it leaves. -/
def addCertificate : Except Exception Unit × Map Bytes (Certificates X509 Key) :=
  let m := if (m hostname).isSome then m.erase hostname else m
  match ssl.read certificate privateKey restOfChain with
  | .error e => (.error e, m)
  | .ok c => (.ok (), m.emplace hostname c)

/-- The call throws, or the leaf certificate or the private key could not be read. -/
def GoesWrong : Prop :=
  (∃ e, (addCertificate ssl hostname certificate privateKey restOfChain m).1 = .error e) ∨
    ∃ c, ssl.Reads certificate privateKey restOfChain c ∧ ¬c.Complete

/-- A map is as it was before, and the host name has no null pointer in it. -/
structure Kept (m' : Map Bytes (Certificates X509 Key)) : Prop where
  map : m' = m
  complete : ∀ c, m' hostname = some c → c.Complete

variable {ssl hostname certificate privateKey restOfChain m} {c : Certificates X509 Key}

theorem erase_found :
    (if (m hostname).isSome then m.erase hostname else m) = m.erase hostname := by
  split
  · rfl
  · rename_i hnone
    rw [Option.not_isSome_iff_eq_none] at hnone
    unfold Map.erase
    rw [← hnone]
    exact (Function.update_eq_self hostname m).symm

/-- What was read is the entry of the host name. -/
theorem addCertificate_ok (h : ssl.Reads certificate privateKey restOfChain c) :
    addCertificate ssl hostname certificate privateKey restOfChain m =
      (.ok (), m.set hostname c) := by
  unfold addCertificate
  rw [OpenSSL.read_eq_ok.mpr h, erase_found]
  dsimp only
  rw [Map.emplace_of_none (Map.erase_self m hostname)]
  unfold Map.set Map.erase
  rw [Function.update_idem]

/-- A text that is not taken: the entry of the host name is gone. -/
theorem addCertificate_error (h : ∀ c, ¬ssl.Reads certificate privateKey restOfChain c) :
    ∃ e, addCertificate ssl hostname certificate privateKey restOfChain m =
      (.error e, m.erase hostname) := by
  unfold addCertificate
  rw [erase_found]
  cases hread : ssl.read certificate privateKey restOfChain with
  | ok c => exact absurd (OpenSSL.read_eq_ok.mp hread) (h c)
  | error e => exact ⟨e, rfl⟩

/-- A certificate that comes without a chain is not stored, and the old one is gone. -/
theorem addCertificate_alone (h : cString restOfChain = []) :
    ∃ e, addCertificate ssl hostname certificate privateKey restOfChain m =
      (.error e, m.erase hostname) := by
  refine addCertificate_error fun c hreads => ?_
  obtain ⟨bio, bio₁, bio₂, bio₃, bio₄, bio₅, bio₆, -, -, -, htakes, -⟩ := hreads
  exact OpenSSL.not_takes h htakes

theorem erase_eq_self : m.erase hostname = m ↔ m hostname = none := by
  unfold Map.erase
  rw [Function.update_eq_self_iff, eq_comm]

/-- The map is kept by a call that goes wrong if and only if a leaf certificate and a private key
    are read, so that nothing goes wrong, or a text is not taken, so that the call throws, and the
    host name had no certificate. -/
theorem kept_iff :
    (GoesWrong ssl hostname certificate privateKey restOfChain m →
      Kept hostname m (addCertificate ssl hostname certificate privateKey restOfChain m).2) ↔
    (∃ c, ssl.Reads certificate privateKey restOfChain c ∧ c.Complete) ∨
      ((∀ c, ¬ssl.Reads certificate privateKey restOfChain c) ∧ m hostname = none) := by
  by_cases hreads : ∃ c, ssl.Reads certificate privateKey restOfChain c
  · obtain ⟨c, hc⟩ := hreads
    have honly : ∀ c', ssl.Reads certificate privateKey restOfChain c' → c' = c := by
      intro c' hc'
      have hsame := (OpenSSL.read_eq_ok.mpr hc').symm.trans (OpenSSL.read_eq_ok.mpr hc)
      exact Except.ok.inj hsame
    by_cases hcomplete : c.Complete
    · refine iff_of_true ?_ (.inl ⟨c, hc, hcomplete⟩)
      rintro (⟨e, herror⟩ | ⟨c', hc', hnot⟩)
      · rw [addCertificate_ok hc] at herror
        exact nomatch herror
      · exact absurd (honly c' hc' ▸ hcomplete) hnot
    · refine iff_of_false (fun h => ?_) ?_
      · have hkept := h (.inr ⟨c, hc, hcomplete⟩)
        rw [addCertificate_ok hc] at hkept
        exact hcomplete (hkept.complete c (Map.set_self m hostname c))
      · rintro (⟨c', hc', hcomplete'⟩ | ⟨hnone, -⟩)
        · exact hcomplete (honly c' hc' ▸ hcomplete')
        · exact hnone c hc
  · have hnone : ∀ c, ¬ssl.Reads certificate privateKey restOfChain c := not_exists.mp hreads
    obtain ⟨e, hadd⟩ : ∃ e, addCertificate ssl hostname certificate privateKey restOfChain m =
        (.error e, m.erase hostname) := addCertificate_error hnone
    have hwrong : GoesWrong ssl hostname certificate privateKey restOfChain m :=
      .inl ⟨e, by rw [hadd]⟩
    rw [imp_iff_right hwrong, hadd]
    constructor
    · intro hkept
      exact .inr ⟨hnone, erase_eq_self.mp hkept.map⟩
    · rintro (⟨c, hc, -⟩ | ⟨-, hhost⟩)
      · exact absurd hc (hnone c)
      · refine ⟨erase_eq_self.mpr hhost, fun c hc => ?_⟩
        exact nomatch (Map.erase_self m hostname).symm.trans hc

end AddCertificate

/-! ## Texts that hold nothing -/

/-- OpenSSL, as it is with texts in which no line begins a certificate or a key: it takes them
    unless they are empty, and reads to the end of them in vain. -/
def OpenSSL.vain : OpenSSL Bytes Nat Nat where
  bioNew := some []
  puts bio text := (text.length, bio ++ text)
  readX509 _ := (none, [])
  readPrivateKey _ := (none, [])
  pending := List.length
  puts_nil _ := Int.le_refl 0
  readX509_pending _ _ h := nomatch h

/-- A host has a certificate. With an empty text for it the call throws, and the certificate is
    gone; with three lines that hold no certificate and no key the call returns, and what is stored
    for the host are null pointers. -/
theorem not_kept_vain :
    let host := ascii "a.org"
    let line := ascii "x"
    let m : Map Bytes (Certificates Nat Nat) := Map.set (fun _ => none) host ⟨some 1, some 2, []⟩
    (addCertificate .vain host [] line line m).1 =
        .error (.runtimeError (ascii "Couldn't read certificate")) ∧
      (addCertificate .vain host [] line line m).2 host = none ∧
      ¬(GoesWrong .vain host [] line line m →
        Kept host m (addCertificate .vain host [] line line m).2) ∧
      (addCertificate .vain host line line line m).1 = .ok () ∧
      (addCertificate .vain host line line line m).2 host = some ⟨none, none, []⟩ ∧
      ¬(GoesWrong .vain host line line line m →
        Kept host m (addCertificate .vain host line line line m).2) := by
  intro host line m
  have hthrows : (addCertificate .vain host [] line line m).1 =
      .error (.runtimeError (ascii "Couldn't read certificate")) := by decide
  have hgone : (addCertificate .vain host [] line line m).2 host = none := by decide
  have hreturns : (addCertificate .vain host line line line m).1 = .ok () := by decide
  have hnull : (addCertificate .vain host line line line m).2 host = some ⟨none, none, []⟩ := by
    decide
  have hreads : OpenSSL.vain.Reads line line line ⟨none, none, []⟩ :=
    OpenSSL.read_eq_ok.mp (by decide)
  refine ⟨hthrows, hgone, fun h => ?_, hreturns, hnull, fun h => ?_⟩
  · have hkept := (h (.inl ⟨_, hthrows⟩)).map
    have hhost := congrFun hkept host
    rw [hgone] at hhost
    exact nomatch hhost.trans (Map.set_self _ host _)
  · have hkept := h (.inr ⟨_, hreads, fun hcomplete => hcomplete.1 rfl⟩)
    exact (hkept.complete _ hnull).1 rfl

end Algiz.Net
