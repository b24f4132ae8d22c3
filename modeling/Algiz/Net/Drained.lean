/-
  What becomes of the bytes that a client is sent.

  The `Ledger` keeps, for the connection at each bufferevent, what `Server::send` was given for it
  and what the socket took. In every state the difference is the output that waits. So a
  connection that goes because it is closed has been written all that it was sent, whoever closes
  it; only an end of file, an error or a failed read drops what is still waiting (`drained`).
-/
import Algiz.Net.CloseQueue

namespace Algiz.Net

open Algiz.Lib

/-- The pool, and the bytes sent and written since each bufferevent was allocated. -/
structure Ledger (Ptr W : Type*) where
  pool : Pool Ptr W := {}
  sent : Ptr → Bytes := fun _ => []
  written : Ptr → Bytes := fun _ => []

namespace Ledger

variable {Ptr W : Type*}

/-- The bytes that are not written yet are the output. -/
def Balanced (s : Ledger Ptr W) : Prop := ∀ be, s.sent be = s.written be ++ s.pool.output be

theorem balanced_init : Balanced ({} : Ledger Ptr W) := fun _ => rfl

/-- There is a connection at this bufferevent. -/
def Registered (s : Pool Ptr W) (be : Ptr) : Prop := s.server.bufferEventDescriptors be ≠ none

instance (s : Pool Ptr W) (be : Ptr) : Decidable (Registered s be) :=
  inferInstanceAs (Decidable (_ ≠ _))

variable [DecidableEq Ptr]

/-- What an event of the pool adds to the bytes. -/
def account (s : Ledger Ptr W) (pool : Pool Ptr W) : PoolEvent Ptr W → Ledger Ptr W
  | .accept _ _ _ be => ⟨pool, Function.update s.sent be [], Function.update s.written be []⟩
  | .send id data =>
    match s.pool.bufferEventOf id with
    | none => ⟨pool, s.sent, s.written⟩
    | some be => ⟨pool, Function.update s.sent be (s.sent be ++ data), s.written⟩
  | .write be n =>
    ⟨pool, s.sent, Function.update s.written be (s.written be ++ (s.pool.output be).take n)⟩
  | .close _ | .eof _ | .error _ | .read _ | .readFailure _ => ⟨pool, s.sent, s.written⟩

@[simp] theorem account_pool (s : Ledger Ptr W) (pool : Pool Ptr W) (e : PoolEvent Ptr W) :
    (s.account pool e).pool = pool := by
  cases e with
  | send id data =>
    rw [account]
    split <;> rfl
  | accept | close | write | eof | error | read | readFailure => rfl

/-- What a removal removes, it removes from the maps only. -/
theorem remove_only {s t : Pool Ptr W} {be b : Ptr} (h : s.remove be = some t)
    (hb : Registered s b) (hgone : ¬ Registered t b) : b = be := by
  obtain ⟨hdescriptors, -⟩ := remove_frame h
  by_contra hne
  refine hgone ?_
  unfold Registered
  rw [hdescriptors, Map.erase_of_ne _ hne]
  exact hb

/-- Whoever is registered stays so while another connection is accepted. -/
theorem accept_registered {s t : Server Ptr W} {w : W} {fd pick : Int} {be b : Ptr}
    (h : s.accept w fd pick be = some (.ok t)) (hb : s.bufferEventDescriptors b ≠ none) :
    t.bufferEventDescriptors b ≠ none := by
  obtain ⟨⟨id, s₁⟩, hregister, henter⟩ := Option.map_eq_some_iff.mp h
  have hsame : s₁.bufferEventDescriptors = s.bufferEventDescriptors := by
    unfold Server.registerClient Server.chooseClient at hregister
    split_ifs at hregister
    · simp only [Option.map_some, Option.some_inj, Prod.mk.injEq] at hregister
      rw [← hregister.2]
    · simp only [Option.map_some, Option.some_inj, Prod.mk.injEq] at hregister
      rw [← hregister.2]
    · cases hregister
  dsimp only at henter
  unfold Server.enterBufferEvent at henter
  split at henter
  · cases henter
  · rw [← Except.ok.inj henter]
    show s₁.bufferEventDescriptors.emplace be fd b ≠ none
    rw [hsame, Map.emplace]
    split
    · exact hb
    · rename_i hnone
      have hne : b ≠ be := by
        rintro rfl
        exact hnone (Option.isSome_iff_ne_none.mpr hb)
      rwa [Map.set_of_ne _ hne]

variable [DecidableEq W]

def step (s : Ledger Ptr W) (e : PoolEvent Ptr W) : Option (Ledger Ptr W) :=
  (s.pool.step e).map fun pool => s.account pool e

theorem close_output {s t : Pool Ptr W} {id : Int} (h : s.close id = some t) :
    t.output = s.output := by
  unfold Pool.close at h
  split at h
  · obtain rfl := Option.some.inj h
    rfl
  split at h
  · cases h
  unfold Pool.queueClose at h
  split at h
  · exact (remove_frame h).2.2.2
  · obtain rfl := Option.some.inj h
    rfl

/-- A close removes a connection that has nothing to write. -/
theorem close_removes {s t : Pool Ptr W} {id : Int} {b : Ptr} (h : s.close id = some t)
    (hb : Registered s b) (hgone : ¬ Registered t b) : s.output b = [] := by
  unfold Pool.close at h
  split at h
  · obtain rfl := Option.some.inj h
    exact absurd hb hgone
  split at h
  · cases h
  unfold Pool.queueClose at h
  split at h
  · rename_i hempty
    rw [remove_only h hb hgone]
    exact List.eq_nil_of_length_eq_zero hempty
  · obtain rfl := Option.some.inj h
    exact absurd hb hgone

theorem handleWriteEmpty_output {s t : Pool Ptr W} {w : W} {be : Ptr}
    (h : s.handleWriteEmpty w be = some t) : t.output = s.output := by
  unfold Pool.handleWriteEmpty at h
  split at h
  · exact (remove_frame h).2.2.2
  · obtain rfl := Option.some.inj h
    rfl

theorem handleWriteEmpty_removes {s t : Pool Ptr W} {w : W} {be b : Ptr}
    (h : s.handleWriteEmpty w be = some t) (hb : Registered s b) (hgone : ¬ Registered t b) :
    b = be := by
  unfold Pool.handleWriteEmpty at h
  split at h
  · exact remove_only h hb hgone
  · obtain rfl := Option.some.inj h
    exact absurd hb hgone

/-- A write takes bytes off the output of one bufferevent, and removes no other. -/
theorem write_spec {s t : Pool Ptr W} {be : Ptr} {n : Nat} (h : s.step (.write be n) = some t) :
    t.output = Function.update s.output be ((s.output be).drop n) ∧
      ∀ b, Registered s b → ¬ Registered t b → b = be ∧ t.output b = [] := by
  rw [Pool.step] at h
  split at h
  · cases h
  split at h
  · dsimp only at h
    split at h
    · rename_i hempty
      have houtput := handleWriteEmpty_output h
      refine ⟨houtput, fun b hb hgone => ?_⟩
      obtain rfl := handleWriteEmpty_removes h hb hgone
      refine ⟨rfl, ?_⟩
      rw [houtput]
      dsimp only
      rw [Function.update_self]
      exact List.eq_nil_of_length_eq_zero hempty
    · obtain rfl := Option.some.inj h
      exact ⟨rfl, fun b hb hgone => absurd hb hgone⟩
  · cases h

/-- An accept begins with an empty output, and removes nobody. -/
theorem accept_spec {s t : Pool Ptr W} {w : W} {fd pick : Int} {be : Ptr}
    (h : s.step (.accept w fd pick be) = some t) :
    t.output = Function.update s.output be [] ∧ ∀ b, Registered s b → Registered t b := by
  rw [Pool.step] at h
  split at h
  · split at h
    · rename_i server haccept
      obtain rfl := Option.some.inj h
      exact ⟨rfl, fun b hb => accept_registered haccept hb⟩
    · cases h
    · cases h
  · cases h

theorem read_spec {s t : Pool Ptr W} {be : Ptr} (h : s.step (.read be) = some t) : t = s := by
  rw [Pool.step] at h
  split at h
  · cases h
  · exact (Option.some.inj h).symm

theorem step_balanced (s : Ledger Ptr W) (e : PoolEvent Ptr W) (t : Ledger Ptr W)
    (h : Balanced s) (hstep : s.step e = some t) : Balanced t := by
  obtain ⟨pool, hpool, rfl⟩ := Option.map_eq_some_iff.mp hstep
  intro b
  cases e with
  | accept w fd pick be =>
    simp only [account, (accept_spec hpool).1]
    by_cases hb : b = be
    · subst hb
      simp
    · simp [hb, h b]
  | send id data =>
    obtain rfl := Option.some.inj hpool
    simp only [account, Pool.send]
    cases s.pool.bufferEventOf id with
    | none => exact h b
    | some be =>
      by_cases hb : b = be
      · subst hb
        simp [h b]
      · simp [hb, h b]
  | write be n =>
    simp only [account, (write_spec hpool).1]
    by_cases hb : b = be
    · subst hb
      simp [h b]
    · simp [hb, h b]
  | close id => simp only [account, close_output hpool, h b]
  | read be => simp only [account, read_spec hpool, h b]
  | eof be => simp only [account, (remove_frame hpool).2.2.2, h b]
  | error be => simp only [account, (remove_frame hpool).2.2.2, h b]
  | readFailure be => simp only [account, (remove_frame hpool).2.2.2, h b]

/-- In every run, what a connection was sent is what was written to it and its output, also in the
    moment when it is removed. It goes with its output drained, unless an end of file, an error
    or a failed read takes it. -/
theorem drained {s t : Ledger Ptr W} {e : PoolEvent Ptr W} {be : Ptr}
    (hreach : Reachable step {} s) (hstep : s.step e = some t)
    (hbe : Registered s.pool be) (hgone : ¬ Registered t.pool be) :
    t.sent be = t.written be ++ t.pool.output be ∧
      (t.written be = t.sent be ∨ e = .eof be ∨ e = .error be ∨ e = .readFailure be) := by
  have hs : Balanced s := hreach.invariant step_balanced balanced_init
  have ht : Balanced t := step_balanced s e t hs hstep
  refine ⟨ht be, ?_⟩
  have hdrained : t.pool.output be = [] → t.written be = t.sent be := by
    intro hnil
    rw [ht be, hnil, List.append_nil]
  obtain ⟨pool, hpool, rfl⟩ := Option.map_eq_some_iff.mp hstep
  cases e with
  | accept w fd pick b =>
    exact absurd ((accept_spec hpool).2 be hbe) hgone
  | send id data =>
    obtain rfl := Option.some.inj hpool
    rw [account_pool, Pool.send] at hgone
    split at hgone
    · exact absurd hbe hgone
    · exact absurd hbe hgone
  | write b n => exact .inl (hdrained ((write_spec hpool).2 be hbe hgone).2)
  | close id =>
    refine .inl (hdrained ?_)
    exact (congrFun (close_output hpool) be).trans (close_removes hpool hbe hgone)
  | read b =>
    rw [account, read_spec hpool] at hgone
    exact absurd hbe hgone
  | eof b => exact .inr (.inl (congrArg _ (remove_only hpool hbe hgone).symm))
  | error b => exact .inr (.inr (.inl (congrArg _ (remove_only hpool hbe hgone).symm)))
  | readFailure b => exact .inr (.inr (.inr (congrArg _ (remove_only hpool hbe hgone).symm)))

/-- A client is sent five bytes and closed. Three of them are written, and then the rest. -/
def farewell : List (PoolEvent Nat Unit) :=
  [.accept () 5 0 100, .send 0 (ascii "hello"), .close 0, .write 100 3]

def beforeLast : Ledger Nat Unit := (exec step {} farewell).get (by decide)

def afterLast : Ledger Nat Unit := (beforeLast.step (.write 100 2)).get (by decide)

theorem drained_farewell : afterLast.written 100 = afterLast.sent 100 := by
  obtain ⟨-, hwritten | he | he | he⟩ := @drained _ _ _ _ beforeLast afterLast _ 100
    ⟨farewell, (Option.some_get _).symm⟩ (Option.some_get _).symm (by decide) (by decide)
  · exact hwritten
  · cases he
  · cases he
  · cases he

end Ledger

end Algiz.Net
