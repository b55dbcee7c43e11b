import Lord.Lib.Interleaving
import Lord.Storage.Encode
import Mathlib.Data.Fintype.Defs

/-! Processes that create the master key at the same time: each call as the steps that the others can
see.  The file is there before it has its bytes and its mode. -/

namespace Lord.Storage

open Interleaving Runs

namespace MasterKey

/-- The next step of a call. -/
inductive Call where
  | check
  | createNew
  | write
  | chmod
  | stat
  | read
  | done (result : Result Bytes32)
  deriving DecidableEq

def Call.result : Call → Option (Result Bytes32)
  | .done result => some result
  | _ => none

/-- The key of the file. -/
def stored (file : Option MasterKeyFile) : Option Bytes32 :=
  file.bind fun file => (parseMasterKeyBytes file.bytes).toOption

def validatePermissions (path : String) (file : MasterKeyFile) : Result Unit :=
  if file.mode &&& 0o077 ≠ 0 then
    .error (s!"master key `{path}` has overly permissive mode " ++
      s!"{String.ofList (Nat.toDigits 8 file.mode)}; expected 0600 or tighter")
  else
    .ok ()

/-- A step of `load_or_create_master_key` without a hex override, by a process that generates `key`. -/
def next (path : String) (key : Bytes32) (file : Option MasterKeyFile) :
    Call → Option MasterKeyFile × Call
  | .check => (file, if file.isSome then .stat else .createNew)
  | .createNew =>
    match file with
    | none => (some ⟨0o100644, []⟩, .write)
    | some _ => (file, .stat)
  | .write => (file.map fun file => { file with bytes := overwrite file.bytes key.val }, .chmod)
  | .chmod =>
    match file with
    | none => (none, .done (.error ⟨s!"failed to chmod 0600 master key `{path}`", [noSuchFile]⟩))
    | some file => (some { file with mode := 0o100600 }, .done (.ok key))
  | .stat =>
    match file with
    | none => (none, .done (.error ⟨s!"failed to stat master key `{path}`", [noSuchFile]⟩))
    | some held =>
      match validatePermissions path held with
      | .ok () => (file, .read)
      | .error err => (file, .done (.error err))
  | .read =>
    match file with
    | none => (none, .done (.error ⟨s!"failed to read master key `{path}`", [noSuchFile]⟩))
    | some held => (file, .done (parseMasterKeyBytes held.bytes))
  | .done result => (file, .done result)

variable {ι : Type} [DecidableEq ι] (path : String) (keys : ι → Bytes32)

/-- No process has made a step, and there is no file. -/
def start : World ι (Option MasterKeyFile) Call := ⟨none, fun _ => .check⟩

/-- The step of a process. -/
def exec (w : World ι (Option MasterKeyFile) Call) (i : ι) : World ι (Option MasterKeyFile) Call :=
  step (fun i => next path (keys i)) w i

/-- A process alone does what `load_or_create_master_key` does when nothing fails. -/
theorem run_alone (dir : DataDir) (key : Bytes32) :
    let env : KeyFileEnv := ⟨.ok (), .ok key, .ok (), none, .ok (), 0o100644⟩
    let w := Runs.run (exec dir.masterKeyPath fun _ : Unit => key)
      ⟨dir.masterKey, fun _ => .check⟩ [(), (), (), ()]
    (w.party ()).result = some (loadOrCreateMasterKey dir env none).1 ∧
      w.shared = (loadOrCreateMasterKey dir env none).2.masterKey := by
  cases hfile : dir.masterKey with
  | none =>
    simp [loadOrCreateMasterKey, hfile, Runs.run, exec, step, next, Call.result, writeAll, overwrite,
      Result.context]
  | some file =>
    by_cases hmode : file.mode &&& 0o077 = 0 <;>
      simp [loadOrCreateMasterKey, hfile, Runs.run, exec, step, next, Call.result, readMasterKeyFile,
        validatePermissions, hmode]

/-- The steps that are left for a call at most. -/
def Call.left : Call → Nat
  | .check => 4
  | .createNew => 3
  | .write | .stat => 2
  | .chmod | .read => 1
  | .done _ => 0

theorem left_next (file : Option MasterKeyFile) (key : Bytes32) (call : Call) :
    (next path key file call).2.left ≤ call.left - 1 := by
  cases call with
  | stat =>
    cases file with
    | none => exact Nat.zero_le _
    | some file =>
      simp only [next]
      split <;> simp [Call.left]
  | _ => cases file <;> simp [next, Call.left]

/-- Calls that get four steps each return. -/
theorem finished_of_turns {calls : List ι} (h : ∀ i, 4 ≤ calls.count i) :
    Finished Call.result (Runs.run (exec path keys) start calls) := by
  refine Interleaving.finished_of_turns Call.left
    (fun i file call => left_next path file (keys i) call) ?_ h
  intro call hcall
  cases call with
  | done result => rfl
  | _ => cases hcall

/-- No process checks the mode of the file between its creation by another one and its chmod. -/
def Clear (w : World ι (Option MasterKeyFile) Call) (i : ι) : Prop :=
  w.party i = .stat → ∀ j, w.party j ≠ .write ∧ w.party j ≠ .chmod

instance [Fintype ι] (w : World ι (Option MasterKeyFile) Call) (i : ι) : Decidable (Clear w i) :=
  inferInstanceAs (Decidable (_ → ∀ _, _))

/-! ### The file and its creator -/

/-- How far the file is when its creator is at a step. -/
inductive Creation (key : Bytes32) : MasterKeyFile → Call → Prop where
  | opened : Creation key ⟨0o100644, []⟩ .write
  | written : Creation key ⟨0o100644, key.val⟩ .chmod
  | restricted : Creation key ⟨0o100600, key.val⟩ (.done (.ok key))

/-- A call that did not create the file: what it has seen of it is complete. -/
inductive Waiting (key : Bytes32) : MasterKeyFile → Call → Prop where
  | check {file : MasterKeyFile} : Waiting key file .check
  | createNew {file : MasterKeyFile} : Waiting key file .createNew
  | stat {file : MasterKeyFile} : Waiting key file .stat
  | read : Waiting key ⟨0o100600, key.val⟩ .read
  | ok : Waiting key ⟨0o100600, key.val⟩ (.done (.ok key))

/-- A call that has not seen the file. -/
def Call.Undecided (call : Call) : Prop := call = .check ∨ call = .createNew

/-- The file does not exist and nobody has seen it, or one call has created it. -/
inductive Inv (w : World ι (Option MasterKeyFile) Call) : Prop where
  | missing (hfile : w.shared = none)
      (hparties : ∀ i, (w.party i).Undecided) : Inv w
  | present (file : MasterKeyFile) (creator : ι) (hfile : w.shared = some file)
      (hcreator : Creation (keys creator) file (w.party creator))
      (hothers : ∀ i, i ≠ creator → Waiting (keys creator) file (w.party i)) : Inv w

variable {path keys} {w : World ι (Option MasterKeyFile) Call} {key own : Bytes32}
  {file file' : MasterKeyFile} {call at' : Call}

theorem parse_val (key : Bytes32) : parseMasterKeyBytes key.val = .ok key := dif_pos key.property

/-- The mode of a new file is too permissive. -/
theorem next_stat_open (path : String) (own : Bytes32) (bytes : Bytes) :
    ∃ err, next path own (some ⟨0o100644, bytes⟩) .stat =
    (some ⟨0o100644, bytes⟩, .done (.error err)) := by
  simp [next, validatePermissions]

theorem next_stat_restricted (bytes : Bytes) : next path own (some ⟨0o100600, bytes⟩) .stat =
    (some ⟨0o100600, bytes⟩, .read) := by
  simp [next, validatePermissions]

/-- What a call has seen of a file that is not finished is true of the file later too. -/
theorem Waiting.later (h : Waiting key file call) (hfile : file.mode = 0o100644) :
    Waiting key file' call := by
  cases h with
  | check => exact .check
  | createNew => exact .createNew
  | stat => exact .stat
  | read => exact absurd (show 0o100600 = 0o100644 from hfile) (by decide)
  | ok => exact absurd (show 0o100600 = 0o100644 from hfile) (by decide)

/-- A call that did not create the file leaves it as it is, and checks its mode when the creator is done. -/
theorem Waiting.next (hcreator : Creation key file at') (h : Waiting key file call)
    (hclear : call = .stat → at' ≠ .write ∧ at' ≠ .chmod) :
    (next path own (some file) call).1 = some file ∧
      Waiting key file (next path own (some file) call).2 := by
  cases h with
  | check => exact ⟨rfl, .stat⟩
  | createNew => exact ⟨rfl, .stat⟩
  | stat =>
    cases hcreator with
    | opened => exact absurd rfl (hclear rfl).1
    | written => exact absurd rfl (hclear rfl).2
    | restricted =>
      rw [next_stat_restricted]
      exact ⟨rfl, .read⟩
  | read =>
    refine ⟨rfl, ?_⟩
    rw [MasterKey.next, parse_val]
    exact .ok
  | ok => exact ⟨rfl, .ok⟩

theorem Creation.next (h : Creation key file call) :
    ∃ file', (next path key (some file) call).1 = some file' ∧
      Creation key file' (next path key (some file) call).2 ∧
      ∀ other, Waiting key file other → Waiting key file' other := by
  cases h with
  | opened =>
    refine ⟨_, rfl, ?_, fun other hother => hother.later rfl⟩
    show Creation key ⟨0o100644, overwrite [] key.val⟩ .chmod
    rw [overwrite_nil]
    exact .written
  | written => exact ⟨_, rfl, .restricted, fun other hother => hother.later rfl⟩
  | restricted => exact ⟨_, rfl, .restricted, fun other hother => hother⟩

omit [DecidableEq ι] in
theorem inv_start (keys : ι → Bytes32) : Inv keys start := .missing rfl fun _ => .inl rfl

theorem Inv.step (h : Inv keys w) {i : ι} (hclear : Clear w i) : Inv keys (exec path keys w i) := by
  unfold exec
  cases h with
  | missing hfile hparties =>
    rcases hparties i with hi | hi
    · refine .missing ?_ ((forall_step (p := fun _ => Call.Undecided)).mpr
        ⟨?_, fun j _ => hparties j⟩)
      · rw [step_shared, hi]
        exact hfile
      · rw [hi, hfile]
        exact .inr rfl
    · refine .present ⟨0o100644, []⟩ i ?_ ?_ fun j hj => ?_
      · rw [step_shared, hi, hfile]
        rfl
      · rw [step_party_self, hi, hfile]
        exact .opened
      · rw [step_party_of_ne hj]
        rcases hparties j with hj | hj
        · rw [hj]
          exact .check
        · rw [hj]
          exact .createNew
  | present file creator hfile hcreator hothers =>
    by_cases hi : i = creator
    · subst hi
      obtain ⟨file', hnext, hcreation, hlater⟩ := hcreator.next
      refine .present file' i ?_ ?_ fun j hj => ?_
      · rw [step_shared, hfile]
        exact hnext
      · rw [step_party_self, hfile]
        exact hcreation
      · rw [step_party_of_ne hj]
        exact hlater _ (hothers j hj)
    · obtain ⟨hsame, hwaiting⟩ := (hothers i hi).next hcreator fun hstat => hclear hstat creator
      refine .present file creator ?_ ?_ fun j hj => ?_
      · rw [step_shared, hfile]
        exact hsame
      · rw [step_party_of_ne (Ne.symm hi)]
        exact hcreator
      · by_cases hji : j = i
        · subst hji
          rw [step_party_self, hfile]
          exact hwaiting
        · rw [step_party_of_ne hji]
          exact hothers j hj

/-- A check of a mode that is still to be changed fails. -/
theorem Inv.failed (h : Inv keys w) {i : ι} (hclear : ¬Clear w i) :
    Failed Call.result (exec path keys w i) := by
  unfold Clear at hclear
  push Not at hclear
  obtain ⟨hstat, j, hj⟩ := hclear
  cases h with
  | missing hfile hparties => rcases hparties i with hi | hi <;> simp [hi] at hstat
  | present file creator hfile hcreator hothers =>
    have hopen : file.mode = 0o100644 := by
      by_cases hjc : j = creator
      · subst hjc
        generalize w.party j = call at hcreator hj
        cases hcreator with
        | opened => rfl
        | written => rfl
        | restricted => exact absurd (hj nofun) nofun
      · have hwaiting := hothers j hjc
        generalize w.party j = call at hwaiting hj
        cases hwaiting <;> exact absurd (hj nofun) nofun
    obtain ⟨mode, bytes⟩ := file
    dsimp only at hopen
    subst hopen
    obtain ⟨err, herr⟩ := next_stat_open path (keys i) bytes
    refine ⟨i, err, ?_⟩
    rw [exec, step_party_self, hfile, hstat, herr]
    rfl

omit [DecidableEq ι] in
/-- Calls that have all returned agree with the file. -/
theorem Inv.agreed (h : Inv keys w) (hfinished : Finished Call.result w) :
    Agreed Call.result stored w := by
  intro i
  have hreturned := hfinished i
  cases h with
  | missing hfile hparties => rcases hparties i with hi | hi <;> simp [hi, Call.result] at hreturned
  | present file creator hfile hcreator hothers =>
    have hcreated := hfinished creator
    generalize hcall : w.party creator = call at hcreator hcreated
    cases hcreator with
    | opened => cases hcreated
    | written => cases hcreated
    | restricted =>
      have hstored : stored w.shared = some (keys creator) := by
        rw [hfile, stored, Option.bind_some, parse_val]
        rfl
      refine ⟨keys creator, ?_, hstored⟩
      by_cases hi : i = creator
      · subst hi
        rw [hcall]
        rfl
      · have hwaiting := hothers i hi
        generalize w.party i = other at hwaiting hreturned
        cases hwaiting with
        | ok => rfl
        | _ => cases hreturned

omit [DecidableEq ι] in
theorem result_next (i : ι) (file : Option MasterKeyFile) (call : Call) (r : Result Bytes32)
    (h : call.result = some r) : (next path (keys i) file call).2.result = some r := by
  cases call with
  | done result => exact h
  | _ => cases h

/-- Calls that have all returned agree with the file exactly when no step of the run was a check of a
mode that was still to be changed. -/
theorem agreed_iff_clear {calls : List ι}
    (hfinished : Finished Call.result (Runs.run (exec path keys) start calls)) :
    Agreed Call.result stored (Runs.run (exec path keys) start calls) ↔
      EachStep (exec path keys) Clear start calls :=
  ⟨eachStep_of_agreed (fun _ _ h => h.step) (fun _ _ h => h.failed) (fun _ i h => h.step result_next i)
      (fun _ h => h.not_agreed) (inv_start keys),
    agreed_of_eachStep (fun _ _ h => h.step) (fun _ h => h.agreed) (inv_start keys) hfinished⟩

end MasterKey

end Lord.Storage
