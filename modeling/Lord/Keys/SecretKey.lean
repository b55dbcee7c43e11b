import Lord.Lib.Interleaving
import Lord.Storage.DataDir

/-! Processes that create the key of the iroh node at the same time: each call as the steps that the others
can see.  The key is written to a temporary file, which has one name for all of them, and then renamed. -/

namespace Lord.Iroh

open Interleaving Runs
open Storage (noSuchFile)

namespace SecretKey

/-- The directory of the key: the content of each file, and the files that the two names stand for. -/
structure KeyDir where
  contents : Nat → Bytes
  /-- The file that is created next. -/
  fresh : Nat
  key : Option Nat
  tmp : Option Nat

/-- The next step of a call.  A write goes to the file that was opened, whatever its name is by then. -/
inductive Call where
  | check
  | createTmp
  | writeTmp (file : Nat)
  | rename
  | read
  | done (result : Result Bytes32)
  deriving DecidableEq

def Call.result : Call → Option (Result Bytes32)
  | .done result => some result
  | _ => none

def keyPath (chainDataDir : String) : String := chainDataDir ++ "/ltp/iroh.key"

def tmpPath (chainDataDir : String) : String := chainDataDir ++ "/ltp/.iroh.key.tmp"

def parseKey (chainDataDir : String) (bytes : Bytes) : Result Bytes32 :=
  if h : bytes.length = 32 then .ok ⟨bytes, h⟩
  else .error s!"iroh key `{keyPath chainDataDir}` must be 32 bytes, got {bytes.length}"

/-- The key of the file. -/
def stored (chainDataDir : String) (dir : KeyDir) : Option Bytes32 :=
  dir.key.bind fun file => (parseKey chainDataDir (dir.contents file)).toOption

/-- A file with another content. -/
def KeyDir.put (dir : KeyDir) (file : Nat) (bytes : Bytes) : KeyDir :=
  { dir with contents := Function.update dir.contents file bytes }

/-- A step of `load_or_create_secret_key`, by a process that generates `key`. -/
def next (chainDataDir : String) (key : Bytes32) (dir : KeyDir) : Call → KeyDir × Call
  | .check => (dir, if dir.key.isSome then .read else .createTmp)
  | .createTmp =>
    match dir.tmp with
    | some file => (dir.put file [], .writeTmp file)
    | none =>
      ({ dir.put dir.fresh [] with fresh := dir.fresh + 1, tmp := some dir.fresh },
        .writeTmp dir.fresh)
  | .writeTmp file => (dir.put file (overwrite (dir.contents file) key.val), .rename)
  | .rename =>
    match dir.tmp with
    | some file => ({ dir with key := some file, tmp := none }, .done (.ok key))
    | none =>
      (dir, .done (.error ⟨s!"failed to write `{keyPath chainDataDir}`",
        [s!"failed to rename `{tmpPath chainDataDir}` to `{keyPath chainDataDir}`", noSuchFile]⟩))
  | .read =>
    match dir.key with
    | some file => (dir, .done (parseKey chainDataDir (dir.contents file)))
    | none => (dir, .done (.error ⟨s!"failed to read `{keyPath chainDataDir}`", [noSuchFile]⟩))
  | .done result => (dir, .done result)

variable {ι : Type} [DecidableEq ι] (chainDataDir : String) (keys : ι → Bytes32)

/-- No process has made a step, and there is no key; a temporary file may be left over. -/
def start (leftover : Option Bytes) : World ι KeyDir Call where
  shared := ⟨fun _ => leftover.getD [], 1, none, leftover.map fun _ => 0⟩
  party := fun _ => .check

/-- The step of a process. -/
def exec (w : World ι KeyDir Call) (i : ι) : World ι KeyDir Call :=
  step (fun i => next chainDataDir (keys i)) w i

/-- The steps that are left for a call at most. -/
def Call.left : Call → Nat
  | .check => 4
  | .createTmp => 3
  | .writeTmp _ => 2
  | .rename | .read => 1
  | .done _ => 0

theorem left_next (dir : KeyDir) (key : Bytes32) (call : Call) :
    (next chainDataDir key dir call).2.left ≤ call.left - 1 := by
  cases call with
  | check => cases hkey : dir.key <;> simp [next, Call.left, hkey]
  | createTmp => cases htmp : dir.tmp <;> simp [next, Call.left, htmp]
  | writeTmp file => simp [next, Call.left]
  | rename => cases htmp : dir.tmp <;> simp [next, Call.left, htmp]
  | read => cases hkey : dir.key <;> simp [next, Call.left, hkey]
  | done result => simp [next, Call.left]

/-- Calls that get four steps each return. -/
theorem finished_of_turns (leftover : Option Bytes) {calls : List ι} (h : ∀ i, 4 ≤ calls.count i) :
    Finished Call.result (Runs.run (exec chainDataDir keys) (start leftover) calls) := by
  refine Interleaving.finished_of_turns Call.left
    (fun i dir call => left_next chainDataDir dir (keys i) call) ?_ h
  intro call hcall
  cases call with
  | done result => rfl
  | _ => cases hcall

/-- A call that has found the key missing and has not renamed its own yet. -/
def Call.Creating : Call → Prop
  | .createTmp | .writeTmp _ | .rename => True
  | _ => False

instance : DecidablePred Call.Creating
  | .createTmp | .writeTmp _ | .rename => isTrue trivial
  | .check | .read | .done _ => isFalse not_false

/-- No process finds the key missing that another one is creating. -/
def Clear (w : World ι KeyDir Call) (i : ι) : Prop :=
  w.party i = .check → w.shared.key = none → ∀ j, ¬(w.party j).Creating

instance [Fintype ι] (w : World ι KeyDir Call) (i : ι) : Decidable (Clear w i) :=
  inferInstanceAs (Decidable (_ → _ → ∀ _, _))

/-! ### The key and its creator -/

/-- The key is there with all of its bytes. -/
def Complete (key : Bytes32) (dir : KeyDir) : Prop :=
  ∃ file, dir.key = some file ∧ dir.contents file = key.val

/-- How far the key is when its creator is at a step. -/
inductive Creation (key : Bytes32) (dir : KeyDir) : Call → Prop where
  | missing (hkey : dir.key = none) : Creation key dir .createTmp
  | opened {file : Nat} (hkey : dir.key = none) (htmp : dir.tmp = some file)
      (hcontent : dir.contents file = []) : Creation key dir (.writeTmp file)
  | written {file : Nat} (hkey : dir.key = none) (htmp : dir.tmp = some file)
      (hcontent : dir.contents file = key.val) : Creation key dir .rename
  | renamed (h : Complete key dir) : Creation key dir (.done (.ok key))

/-- A call that does not create the key. -/
inductive Waiting (key : Bytes32) (dir : KeyDir) : Call → Prop where
  | check : Waiting key dir .check
  | read (h : Complete key dir) : Waiting key dir .read
  | ok (h : Complete key dir) : Waiting key dir (.done (.ok key))

/-- Nobody has seen that the key is missing, or one call has. -/
inductive Inv (w : World ι KeyDir Call) : Prop where
  | untouched (hkey : w.shared.key = none) (hparties : ∀ i, w.party i = .check) : Inv w
  | created (creator : ι) (hcreator : Creation (keys creator) w.shared (w.party creator))
      (hothers : ∀ i, i ≠ creator → Waiting (keys creator) w.shared (w.party i)) : Inv w

/-- A call that is creating the key, or has returned its own key or an error. -/
def Call.Creates (key : Bytes32) (call : Call) : Prop :=
  call.Creating ∨ ∃ result, call = .done result ∧ ∀ value, result = .ok value → value = key

variable {chainDataDir keys} {w : World ι KeyDir Call} {key : Bytes32} {dir dir' : KeyDir}
  {call at' : Call}

theorem parse_val (chainDataDir : String) (key : Bytes32) :
    parseKey chainDataDir key.val = .ok key :=
  dif_pos key.property

/-- What a call has seen of a key that is missing is true later too. -/
theorem Waiting.later (h : Waiting key dir call) (hkey : dir.key = none) : Waiting key dir' call := by
  have hincomplete : ¬Complete key dir := by
    rintro ⟨file, hfile, -⟩
    rw [hkey] at hfile
    cases hfile
  cases h with
  | check => exact .check
  | read h => exact absurd h hincomplete
  | ok h => exact absurd h hincomplete

/-- A call that does not create the key leaves the directory as it is. -/
theorem Waiting.next (chainDataDir : String) (own : Bytes32) (hcreator : Creation key dir at')
    (h : Waiting key dir call) (hclear : call = .check → dir.key = none → ¬at'.Creating) :
    (next chainDataDir own dir call).1 = dir ∧ Waiting key dir (next chainDataDir own dir call).2 := by
  cases h with
  | check =>
    cases hcreator with
    | missing hkey => exact absurd trivial (hclear rfl hkey)
    | opened hkey => exact absurd trivial (hclear rfl hkey)
    | written hkey => exact absurd trivial (hclear rfl hkey)
    | renamed h =>
      obtain ⟨file, hfile, hcontent⟩ := id h
      simp only [SecretKey.next, hfile, Option.isSome_some, if_true]
      exact ⟨trivial, .read h⟩
  | read h =>
    obtain ⟨file, hfile, hcontent⟩ := id h
    simp only [SecretKey.next, hfile, hcontent, parse_val]
    exact ⟨trivial, .ok h⟩
  | ok h => exact ⟨rfl, .ok h⟩

theorem Creation.next (chainDataDir : String) (h : Creation key dir call) :
    Creation key (next chainDataDir key dir call).1 (next chainDataDir key dir call).2 ∧
      ∀ other, Waiting key dir other → Waiting key (next chainDataDir key dir call).1 other := by
  cases h with
  | missing hkey =>
    refine ⟨?_, fun other hother => hother.later hkey⟩
    simp only [SecretKey.next]
    split
    · rename_i file htmp
      exact .opened hkey htmp (by simp [KeyDir.put])
    · exact .opened hkey rfl (by simp [KeyDir.put])
  | opened hkey htmp hcontent =>
    refine ⟨?_, fun other hother => hother.later hkey⟩
    simp only [SecretKey.next, hcontent, overwrite_nil]
    exact .written hkey htmp (by simp [KeyDir.put])
  | written hkey htmp hcontent =>
    refine ⟨?_, fun other hother => hother.later hkey⟩
    simp only [SecretKey.next, htmp]
    exact .renamed ⟨_, rfl, hcontent⟩
  | renamed h => exact ⟨.renamed h, fun other hother => hother⟩

omit [DecidableEq ι] in
theorem inv_start (keys : ι → Bytes32) (leftover : Option Bytes) : Inv keys (start leftover) :=
  .untouched rfl fun _ => rfl

theorem Inv.step (h : Inv keys w) {i : ι} (hclear : Clear w i) :
    Inv keys (exec chainDataDir keys w i) := by
  unfold exec
  cases h with
  | untouched hkey hparties =>
    refine .created i ?_ fun j hj => ?_
    · rw [step_shared, step_party_self, hparties i]
      simp only [SecretKey.next, hkey]
      exact .missing hkey
    · rw [step_party_of_ne hj, hparties j]
      exact .check
  | created creator hcreator hothers =>
    obtain ⟨hcreator', hothers'⟩ := led_step (fun j => next chainDataDir (keys j)) i hcreator hothers
      (hcreator.next chainDataDir) fun hi => (hothers i hi).next chainDataDir (keys i) hcreator
        fun hcall hkey => hclear hcall hkey creator
    exact .created creator hcreator' hothers'

omit [DecidableEq ι] in
theorem creates_next (i : ι) (dir : KeyDir) (call : Call) (h : call.Creates (keys i)) :
    (next chainDataDir (keys i) dir call).2.Creates (keys i) := by
  cases call with
  | check => simp [Call.Creates, Call.Creating] at h
  | createTmp =>
    simp only [next]
    split <;> exact .inl trivial
  | writeTmp file => exact .inl trivial
  | rename =>
    simp only [next]
    split
    · exact .inr ⟨_, rfl, fun value hvalue => (Except.ok.inj hvalue).symm⟩
    · exact .inr ⟨_, rfl, nofun⟩
  | read => simp [Call.Creates, Call.Creating] at h
  | done result => exact h

omit [DecidableEq ι] in
theorem creates_result (i : ι) (call : Call) (key : Bytes32) (h : call.Creates (keys i))
    (hresult : call.result = some (.ok key)) : key = keys i := by
  cases call with
  | done result =>
    rcases h with hcreating | ⟨returned, hdone, hown⟩
    · exact hcreating.elim
    · cases hdone
      exact hown key (Option.some.inj hresult)
  | _ => cases hresult

/-- A step that does not meet the condition makes a second creator. -/
theorem lost {i : ι} (hclear : ¬Clear w i) :
    Rivals (fun i call => call.Creates (keys i)) (exec chainDataDir keys w i) := by
  unfold Clear at hclear
  push Not at hclear
  obtain ⟨hcall, hkey, j, hj⟩ := hclear
  have hne : j ≠ i := by
    rintro rfl
    rw [hcall] at hj
    exact hj
  refine ⟨i, j, hne.symm, ?_, ?_⟩
  · rw [exec, step_party_self, hcall]
    simp only [next, hkey]
    exact .inl trivial
  · rw [exec, step_party_of_ne hne]
    exact .inl hj

omit [DecidableEq ι] in
/-- Calls that have all returned agree with the file. -/
theorem Inv.agreed (h : Inv keys w) (hfinished : Finished Call.result w) :
    Agreed Call.result (stored chainDataDir) w := by
  intro i
  have hreturned := hfinished i
  cases h with
  | untouched hkey hparties => simp [hparties i, Call.result] at hreturned
  | created creator hcreator hothers =>
    have hcreated := hfinished creator
    generalize hcall : w.party creator = call at hcreator hcreated
    cases hcreator with
    | renamed hcomplete =>
      have hstored : stored chainDataDir w.shared = some (keys creator) := by
        obtain ⟨file, hfile, hcontent⟩ := hcomplete
        rw [stored, hfile, Option.bind_some, hcontent, parse_val]
        rfl
      refine ⟨keys creator, ?_, hstored⟩
      by_cases hi : i = creator
      · subst hi
        rw [hcall]
        rfl
      · have hwaiting := hothers i hi
        generalize w.party i = other at hwaiting hreturned
        cases hwaiting with
        | ok => rfl
        | _ => cases hreturned
    | _ => cases hcreated

/-- Calls that have all returned agree with the file when no step of the run found the key missing that
another call was creating. -/
theorem agreed_of_clear {leftover : Option Bytes} {calls : List ι}
    (hfinished : Finished Call.result (Runs.run (exec chainDataDir keys) (start leftover) calls))
    (h : EachStep (exec chainDataDir keys) Clear (start leftover) calls) :
    Agreed Call.result (stored chainDataDir)
      (Runs.run (exec chainDataDir keys) (start leftover) calls) :=
  agreed_of_eachStep (fun _ _ h => h.step) (fun _ h => h.agreed) (inv_start keys leftover) hfinished h

/-- Calls with different keys agree only then. -/
theorem clear_of_agreed {leftover : Option Bytes} {calls : List ι} (hkeys : keys.Injective)
    (h : Agreed Call.result (stored chainDataDir)
      (Runs.run (exec chainDataDir keys) (start leftover) calls)) :
    EachStep (exec chainDataDir keys) Clear (start leftover) calls :=
  eachStep_of_agreed (fun _ _ h => h.step) (fun _ _ _ h => lost h)
    (fun _ i h => h.step creates_next i) (fun _ h => h.not_agreed hkeys creates_result)
    (inv_start keys leftover) h

end SecretKey

end Lord.Iroh
