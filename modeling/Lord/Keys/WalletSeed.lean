import Lord.Lib.Interleaving
import Lord.Storage.DataDir

/-! Processes that create the seed of the ecash wallet at the same time: each call as the steps that the
others can see.  Whoever finds no seed writes one over whatever is there by then. -/

namespace Lord.Ecash

open Interleaving Runs

/-- Sixty-four bytes, the model of `[u8; 64]`. -/
abbrev Bytes64 := { bytes : Bytes // bytes.length = 64 }

namespace Seed

/-- The next step of a call. -/
inductive Call where
  | isFile
  | create
  | write
  | read
  | done (result : Result Bytes64)
  deriving DecidableEq

def Call.result : Call → Option (Result Bytes64)
  | .done result => some result
  | _ => none

def parseSeed (path : String) (bytes : Bytes) : Result Bytes64 :=
  if h : bytes.length = 64 then .ok ⟨bytes, h⟩
  else .error s!"ecash wallet seed `{path}` must be 64 bytes"

/-- The seed of the file. -/
def stored (path : String) (file : Option Bytes) : Option Bytes64 :=
  file.bind fun bytes => (parseSeed path bytes).toOption

/-- A step of `read_or_create_seed`, by a process that generates `seed`; `std::fs::write` opens the file,
which empties it, and then writes. -/
def next (path : String) (seed : Bytes64) (file : Option Bytes) : Call → Option Bytes × Call
  | .isFile => (file, if file.isSome then .read else .create)
  | .create => (some [], .write)
  | .write => (file.map fun bytes => overwrite bytes seed.val, .done (.ok seed))
  | .read =>
    match file with
    | none =>
      (none, .done (.error ⟨s!"failed to read ecash wallet seed `{path}`", [Storage.noSuchFile]⟩))
    | some bytes => (file, .done (parseSeed path bytes))
  | .done result => (file, .done result)

variable {ι : Type} [DecidableEq ι] (path : String) (seeds : ι → Bytes64)

/-- No process has made a step, and there is no file. -/
def start : World ι (Option Bytes) Call := ⟨none, fun _ => .isFile⟩

/-- The step of a process. -/
def exec (w : World ι (Option Bytes) Call) (i : ι) : World ι (Option Bytes) Call :=
  step (fun i => next path (seeds i)) w i

/-- The steps that are left for a call at most. -/
def Call.left : Call → Nat
  | .isFile => 3
  | .create => 2
  | .write | .read => 1
  | .done _ => 0

theorem left_next (file : Option Bytes) (seed : Bytes64) (call : Call) :
    (next path seed file call).2.left ≤ call.left - 1 := by
  cases call with
  | _ => cases file <;> simp [next, Call.left]

/-- Calls that get three steps each return. -/
theorem finished_of_turns {calls : List ι} (h : ∀ i, 3 ≤ calls.count i) :
    Finished Call.result (Runs.run (exec path seeds) start calls) := by
  refine Interleaving.finished_of_turns Call.left
    (fun i file call => left_next path file (seeds i) call) ?_ h
  intro call hcall
  cases call with
  | done result => rfl
  | _ => cases hcall

/-- No process finds the file missing that another one is about to create, and none reads a file that
another one is about to write. -/
structure Clear (w : World ι (Option Bytes) Call) (i : ι) : Prop where
  isFile : w.party i = .isFile → w.shared = none → ∀ j, w.party j ≠ .create
  read : w.party i = .read → ∀ j, w.party j ≠ .write

instance [Fintype ι] (w : World ι (Option Bytes) Call) (i : ι) : Decidable (Clear w i) :=
  decidable_of_iff ((w.party i = .isFile → w.shared = none → ∀ j, w.party j ≠ .create) ∧
      (w.party i = .read → ∀ j, w.party j ≠ .write))
    ⟨fun h => ⟨h.1, h.2⟩, fun h => ⟨h.isFile, h.read⟩⟩

/-! ### The file and its creator -/

/-- A call that is about to create the seed, or that has done so. -/
def Call.Creates (seed : Bytes64) (call : Call) : Prop :=
  call = .create ∨ call = .write ∨ call = .done (.ok seed)

/-- How far the file is when its creator is at a step. -/
inductive Creation (seed : Bytes64) : Option Bytes → Call → Prop where
  | missing : Creation seed none .create
  | opened : Creation seed (some []) .write
  | written : Creation seed (some seed.val) (.done (.ok seed))

/-- A call that does not create the file: it has seen it only if it was there, and what it has read of it is
complete. -/
inductive Waiting (seed : Bytes64) : Option Bytes → Call → Prop where
  | isFile {file : Option Bytes} : Waiting seed file .isFile
  | read {bytes : Bytes} : Waiting seed (some bytes) .read
  | ok {file : Option Bytes} (hfile : file = some seed.val) : Waiting seed file (.done (.ok seed))

/-- Nobody has seen that the file is missing, or one call has. -/
inductive Inv (w : World ι (Option Bytes) Call) : Prop where
  | untouched (hfile : w.shared = none) (hparties : ∀ i, w.party i = .isFile) : Inv w
  | created (creator : ι) (hcreator : Creation (seeds creator) w.shared (w.party creator))
      (hothers : ∀ i, i ≠ creator → Waiting (seeds creator) w.shared (w.party i)) : Inv w

variable {path seeds} {w : World ι (Option Bytes) Call} {seed own : Bytes64} {file : Option Bytes}
  {call at' : Call}

theorem parse_val (path : String) (seed : Bytes64) : parseSeed path seed.val = .ok seed :=
  dif_pos seed.property

/-- What a call has seen of a file that is not written is true of the file later too. -/
theorem Waiting.later (h : Waiting seed file call) (hfile : file = none ∨ file = some []) (bytes : Bytes) :
    Waiting seed (some bytes) call := by
  cases h with
  | isFile => exact .isFile
  | read => exact .read
  | ok hseed =>
    subst hseed
    have hlength := seed.property
    rcases hfile with hfile | hfile
    · cases hfile
    · rw [Option.some.inj hfile] at hlength
      cases hlength

/-- A call that does not create the file leaves it as it is, and reads it when the creator is done. -/
theorem Waiting.next (path : String) (own : Bytes64) (hcreator : Creation seed file at')
    (h : Waiting seed file call) (hmissing : call = .isFile → file = none → at' ≠ .create)
    (hread : call = .read → at' ≠ .write) :
    (next path own file call).1 = file ∧ Waiting seed file (next path own file call).2 := by
  cases h with
  | isFile =>
    cases hcreator with
    | missing => exact absurd rfl (hmissing rfl rfl)
    | opened => exact ⟨rfl, .read⟩
    | written => exact ⟨rfl, .read⟩
  | read =>
    cases hcreator with
    | opened => exact absurd rfl (hread rfl)
    | written =>
      refine ⟨rfl, ?_⟩
      rw [Seed.next, parse_val]
      exact .ok rfl
  | ok hseed => exact ⟨rfl, .ok hseed⟩

theorem Creation.next (path : String) (h : Creation seed file call) :
    Creation seed (next path seed file call).1 (next path seed file call).2 ∧
      ∀ other, Waiting seed file other → Waiting seed (next path seed file call).1 other := by
  cases h with
  | missing => exact ⟨.opened, fun other hother => hother.later (.inl rfl) []⟩
  | opened =>
    refine ⟨?_, fun other hother => hother.later (.inr rfl) _⟩
    show Creation seed (some (overwrite [] seed.val)) _
    rw [overwrite_nil]
    exact .written
  | written => exact ⟨.written, fun other hother => hother⟩

omit [DecidableEq ι] in
theorem inv_start (seeds : ι → Bytes64) : Inv seeds start := .untouched rfl fun _ => rfl

theorem Inv.step (h : Inv seeds w) {i : ι} (hclear : Clear w i) : Inv seeds (exec path seeds w i) := by
  unfold exec
  cases h with
  | untouched hfile hparties =>
    refine .created i ?_ fun j hj => ?_
    · rw [step_shared, step_party_self, hparties i, hfile]
      exact .missing
    · rw [step_party_of_ne hj, hparties j]
      exact .isFile
  | created creator hcreator hothers =>
    obtain ⟨hcreator', hothers'⟩ := led_step (fun j => next path (seeds j)) i hcreator hothers
      (hcreator.next path) fun hi => (hothers i hi).next path (seeds i) hcreator
        (fun hcall hfile => hclear.isFile hcall hfile creator) fun hcall => hclear.read hcall creator
    exact .created creator hcreator' hothers'

omit [DecidableEq ι] in
theorem creates_next (i : ι) (file : Option Bytes) (call : Call) (h : call.Creates (seeds i)) :
    (next path (seeds i) file call).2.Creates (seeds i) := by
  rcases h with rfl | rfl | rfl
  · exact .inr (.inl rfl)
  · exact .inr (.inr rfl)
  · exact .inr (.inr rfl)

omit [DecidableEq ι] in
theorem creates_result (i : ι) (call : Call) (seed : Bytes64) (h : call.Creates (seeds i))
    (hresult : call.result = some (.ok seed)) : seed = seeds i := by
  rcases h with rfl | rfl | rfl
  · cases hresult
  · cases hresult
  · cases hresult
    rfl

omit [DecidableEq ι] in
theorem result_next (i : ι) (file : Option Bytes) (call : Call) (r : Result Bytes64)
    (h : call.result = some r) : (next path (seeds i) file call).2.result = some r := by
  cases call with
  | done result => exact h
  | _ => cases h

/-- Where the condition is not met, there is a second creator, or a seed is read before it is written. -/
theorem Inv.lost (h : Inv seeds w) {i : ι} (hclear : ¬Clear w i) :
    Failed Call.result (exec path seeds w i) ∨
      Rivals (fun i call => call.Creates (seeds i)) (exec path seeds w i) := by
  have hcases : (w.party i = .isFile ∧ w.shared = none ∧ ∃ j, w.party j = .create) ∨
      w.party i = .read ∧ ∃ j, w.party j = .write := by
    by_contra hnone
    push Not at hnone
    exact hclear ⟨hnone.1, hnone.2⟩
  rcases hcases with ⟨hcall, hfile, j, hj⟩ | ⟨hcall, j, hj⟩
  · have hne : j ≠ i := by
      rintro rfl
      rw [hj] at hcall
      cases hcall
    refine .inr ⟨i, j, hne.symm, ?_, ?_⟩
    · rw [exec, step_party_self, hcall, hfile]
      exact .inl rfl
    · rw [exec, step_party_of_ne hne, hj]
      exact .inl rfl
  · -- The other call has emptied the file.
    have hfile : w.shared = some [] := by
      cases h with
      | untouched hfile hparties => simp [hparties j] at hj
      | created creator hcreator hothers =>
        by_cases hjc : j = creator
        · subst hjc
          rw [hj] at hcreator
          generalize w.shared = file at hcreator
          cases hcreator
          rfl
        · have hwaiting := hothers j hjc
          rw [hj] at hwaiting
          generalize w.shared = file at hwaiting
          cases hwaiting
    refine .inl ⟨i, s!"ecash wallet seed `{path}` must be 64 bytes", ?_⟩
    rw [exec, step_party_self, hcall, hfile]
    rfl

omit [DecidableEq ι] in
/-- Calls that have all returned agree with the file. -/
theorem Inv.agreed (h : Inv seeds w) (hfinished : Finished Call.result w) :
    Agreed Call.result (stored path) w := by
  intro i
  have hreturned := hfinished i
  cases h with
  | untouched hfile hparties => simp [hparties i, Call.result] at hreturned
  | created creator hcreator hothers =>
    have hcreated := hfinished creator
    generalize hcall : w.party creator = call at hcreator hcreated
    generalize hfile : w.shared = file at hcreator hothers
    cases hcreator with
    | missing => cases hcreated
    | opened => cases hcreated
    | written =>
      have hstored : stored path (some (seeds creator).val) = some (seeds creator) := by
        rw [stored, Option.bind_some, parse_val]
        rfl
      refine ⟨seeds creator, ?_, hstored⟩
      by_cases hi : i = creator
      · subst hi
        rw [hcall]
        rfl
      · have hwaiting := hothers i hi
        generalize w.party i = other at hwaiting hreturned
        cases hwaiting with
        | ok => rfl
        | _ => cases hreturned

/-- Calls that have all returned agree with the file when no step of the run found the file missing
beside a call that was about to create it, or read it beside one that was about to write it. -/
theorem agreed_of_clear {calls : List ι}
    (hfinished : Finished Call.result (Runs.run (exec path seeds) start calls))
    (h : EachStep (exec path seeds) Clear start calls) :
    Agreed Call.result (stored path) (Runs.run (exec path seeds) start calls) :=
  agreed_of_eachStep (fun _ _ h => h.step) (fun _ h => h.agreed) (inv_start seeds) hfinished h

/-- Calls with different seeds agree only then. -/
theorem clear_of_agreed {calls : List ι} (hseeds : seeds.Injective)
    (h : Agreed Call.result (stored path) (Runs.run (exec path seeds) start calls)) :
    EachStep (exec path seeds) Clear start calls := by
  refine eachStep_of_agreed
    (B := fun w => Failed Call.result w ∨ Rivals (fun i call => call.Creates (seeds i)) w)
    (fun _ _ h => h.step) (fun _ _ h => h.lost) ?_ ?_ (inv_start seeds) h
  · rintro w i (hfailed | hrivals)
    · exact .inl (hfailed.step result_next i)
    · exact .inr (hrivals.step creates_next i)
  · rintro w (hfailed | hrivals)
    · exact hfailed.not_agreed
    · exact hrivals.not_agreed hseeds creates_result

end Seed

end Lord.Ecash
