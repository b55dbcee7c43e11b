import Lord.Keys.MasterKey
import Lord.Keys.SecretKey
import Lord.Keys.WalletSeed

/-! The first use of the three keys by several processes. -/

namespace Lord.Keys

open Interleaving Runs
open Storage Iroh Ecash

/-- Calls that start without a key and have all returned agree with the file: on the master key, exactly
when none checks the mode of a file that another one has created and not yet restricted; on the key of the
iroh node, when none finds the key missing that another one is creating; on the seed of the ecash wallet,
when none finds it missing that another one is about to create, and none reads it before it is written.
Where the processes generate different keys, the last two hold only then. -/
theorem first_use_agrees {ι : Type} [DecidableEq ι] (calls : List ι)
    (keyPath chainDataDir seedPath : String)
    (leftover : Option Bytes) (keys : ι → Bytes32) (seeds : ι → Bytes64) :
    (Finished MasterKey.Call.result (run (MasterKey.exec keyPath keys) MasterKey.start calls) →
      (Agreed MasterKey.Call.result MasterKey.stored
          (run (MasterKey.exec keyPath keys) MasterKey.start calls) ↔
        EachStep (MasterKey.exec keyPath keys) MasterKey.Clear MasterKey.start calls)) ∧
    (Finished SecretKey.Call.result
        (run (SecretKey.exec chainDataDir keys) (SecretKey.start leftover) calls) →
      (EachStep (SecretKey.exec chainDataDir keys) SecretKey.Clear (SecretKey.start leftover) calls →
        Agreed SecretKey.Call.result (SecretKey.stored chainDataDir)
          (run (SecretKey.exec chainDataDir keys) (SecretKey.start leftover) calls)) ∧
      (keys.Injective →
        Agreed SecretKey.Call.result (SecretKey.stored chainDataDir)
          (run (SecretKey.exec chainDataDir keys) (SecretKey.start leftover) calls) →
        EachStep (SecretKey.exec chainDataDir keys) SecretKey.Clear (SecretKey.start leftover)
          calls)) ∧
    (Finished Seed.Call.result (run (Seed.exec seedPath seeds) Seed.start calls) →
      (EachStep (Seed.exec seedPath seeds) Seed.Clear Seed.start calls →
        Agreed Seed.Call.result (Seed.stored seedPath)
          (run (Seed.exec seedPath seeds) Seed.start calls)) ∧
      (seeds.Injective →
        Agreed Seed.Call.result (Seed.stored seedPath)
          (run (Seed.exec seedPath seeds) Seed.start calls) →
        EachStep (Seed.exec seedPath seeds) Seed.Clear Seed.start calls)) := by
  refine ⟨fun hfinished => ?_, fun hfinished => ?_, fun hfinished => ?_⟩
  · exact MasterKey.agreed_iff_clear hfinished
  · exact ⟨SecretKey.agreed_of_clear hfinished, SecretKey.clear_of_agreed⟩
  · exact ⟨Seed.agreed_of_clear hfinished, Seed.clear_of_agreed⟩

/-- The key that a process generates. -/
def keyOf (i : Fin 2) : Bytes32 :=
  Bytes32.replicate (if i = 0 then 0x11 else 0x22)

def seedOf (i : Fin 2) : Bytes64 :=
  ⟨List.replicate 64 (if i = 0 then 0x11 else 0x22), List.length_replicate⟩

theorem keyOf_injective : keyOf.Injective := by decide

theorem seedOf_injective : seedOf.Injective := by decide

/-- Two processes of which the second begins when the first has the key agree. -/
theorem first_use_agrees_in_turn :
    Agreed MasterKey.Call.result MasterKey.stored
        (run (MasterKey.exec "master.key" keyOf) MasterKey.start [0, 0, 0, 0, 1, 1, 1, 1]) ∧
      Agreed SecretKey.Call.result (SecretKey.stored "chain")
        (run (SecretKey.exec "chain" keyOf) (SecretKey.start none) [0, 0, 0, 0, 1, 1, 1, 1]) ∧
      Agreed Seed.Call.result (Seed.stored "seed")
        (run (Seed.exec "seed" seedOf) Seed.start [0, 0, 0, 0, 1, 1, 1, 1]) := by
  obtain ⟨hmaster, hsecret, hseed⟩ := first_use_agrees [0, 0, 0, 0, 1, 1, 1, 1] "master.key" "chain"
    "seed" none keyOf seedOf
  have hturns : ∀ i : Fin 2, 4 ≤ [0, 0, 0, 0, 1, 1, 1, 1].count i := by decide
  refine ⟨(hmaster (MasterKey.finished_of_turns _ _ hturns)).mpr ?_,
    (hsecret (SecretKey.finished_of_turns _ _ none hturns)).1 ?_,
    (hseed (Seed.finished_of_turns _ _ fun i => Nat.le_trans (by decide) (hturns i))).1 ?_⟩
  · simp only [eachStep_cons, eachStep_nil, and_true]
    decide +kernel
  · simp only [eachStep_cons, eachStep_nil, and_true]
    decide +kernel
  · simp only [eachStep_cons, eachStep_nil, and_true]
    decide +kernel

/-- The calls do not agree when the second process comes between two steps of the first: it checks the mode
of the master key before the chmod, and it finds the other keys missing and replaces them later. -/
theorem not_first_use_agrees :
    (∃ calls : List (Fin 2),
      Finished MasterKey.Call.result (run (MasterKey.exec "master.key" keyOf) MasterKey.start calls) ∧
      ¬Agreed MasterKey.Call.result MasterKey.stored
        (run (MasterKey.exec "master.key" keyOf) MasterKey.start calls)) ∧
    (∃ calls : List (Fin 2),
      Finished SecretKey.Call.result
        (run (SecretKey.exec "chain" keyOf) (SecretKey.start none) calls) ∧
      ¬Agreed SecretKey.Call.result (SecretKey.stored "chain")
        (run (SecretKey.exec "chain" keyOf) (SecretKey.start none) calls)) ∧
    ∃ calls : List (Fin 2),
      Finished Seed.Call.result (run (Seed.exec "seed" seedOf) Seed.start calls) ∧
      ¬Agreed Seed.Call.result (Seed.stored "seed")
        (run (Seed.exec "seed" seedOf) Seed.start calls) := by
  refine ⟨⟨[0, 0, 1, 1, 0, 0, 1, 1], ?_, fun h => ?_⟩, ⟨[0, 1, 0, 0, 0, 1, 1, 1], ?_, fun h => ?_⟩,
    ⟨[0, 1, 0, 0, 1, 1], ?_, fun h => ?_⟩⟩
  · exact MasterKey.finished_of_turns _ _ (by decide)
  · obtain ⟨key, hresult, -⟩ := h 1
    cases hresult
  · exact SecretKey.finished_of_turns _ _ none (by decide)
  · obtain ⟨key, hresult, hstored⟩ := h 0
    cases hresult
    exact absurd (keyOf_injective (Option.some.inj hstored)) (by decide)
  · exact Seed.finished_of_turns _ _ (by decide)
  · obtain ⟨seed, hresult, hstored⟩ := h 0
    cases hresult
    exact absurd (seedOf_injective (Option.some.inj hstored)) (by decide)

end Lord.Keys
