import Mathlib.Data.List.Induction
import Daenet.Ref.ConfigFile
import Mathlib.Logic.Function.Basic

/-!
# What a configuration leaves

`read_from_file` sets a field for every line that it knows. What it leaves is the last
value of every key, whatever the order of the keys, and it fails exactly if one of the
values that should be numbers is none.

`init_from_cmd` sets a field for every option that it is given, and none twice.
-/

namespace Daenet.Proofs

open Daenet.Lib Daenet.Ref

section Fields

variable {δ : Type} (stod : List Char → Option δ)

/-- A value that its key can have. -/
def okValue (value : List Char) : ConfigKey → Bool
  | .peerIp | .debug | .transmission | .server | .debugShuffle | .shuffle => true
  | .shuffleP => (stod value).isSome
  | _ => (stoi value).isSome

/-- A number that a key may have been given. -/
def number (f : ConfigKey → Option (List Char)) (k : ConfigKey) (default : Int) : Int :=
  ((f k).bind stoi).getD default

/-- The configuration in which every key has at most one value. -/
def byKeys (p : δ) (f : ConfigKey → Option (List Char)) : FileConfig δ where
  peerIp := (f .peerIp).getD ['1', '0', '.', '2', '2', '.', '1', '.', '1', '6']
  peerPort := number f .peerPort 3010
  debug := (f .debug).isSome
  relayId := (number f .key 0 % 2 ^ 64).toNat
  ringBits := number f .m 10
  session := number f .session 0
  transmission := (f .transmission).getD []
  seed := (f .seed).bind stoi
  isServer := (f .server).isSome
  msgRate := number f .msgRate 10
  minPool := number f .poolSize 10
  btTime := number f .btTime 10
  debugShuffle := (f .debugShuffle).isSome
  shuffle := (f .shuffle).getD ['s', 'h', 'u', 'f', 'f', 'l', 'e']
  cntInterval := number f .cntTime 1
  shuffleP := ((f .shuffleP).bind stod).getD p
  recheck := number f .recheck 10
  checkwait := number f .checkwait 2
  p2pTimeBefore := number f .p2pTimeBefore 10
  p2pTimeAfter := number f .p2pTimeAfter 1
  sendDummy := number f .sendDummy 0
  checkFailure := number f .checkFailure 0

/-- A line gives its key the value, if it can have it. -/
theorem set_byKeys (p : δ) (f : ConfigKey → Option (List Char)) (value : List Char)
    (k : ConfigKey) :
    (byKeys stod p f).set stod value k =
      if okValue stod value k then some (byKeys stod p (Function.update f k (some value)))
      else none := by
  cases k with
  | peerIp | debug | transmission | server | debugShuffle | shuffle =>
      simp [FileConfig.set, okValue, byKeys, number]
  | shuffleP =>
      cases hx : stod value with
      | none => simp [FileConfig.set, okValue, hx]
      | some x => simp [FileConfig.set, okValue, byKeys, number, hx]
  | peerPort | key | m | session | seed | msgRate | poolSize | btTime | cntTime | recheck
  | checkwait | p2pTimeBefore | p2pTimeAfter | sendDummy | checkFailure =>
      cases hz : stoi value with
      | none => simp [FileConfig.set, okValue, hz]
      | some z => simp [FileConfig.set, okValue, byKeys, number, hz]

end Fields

section Assign

variable {κ α β : Type} [DecidableEq κ]

/-- What some pairs of a key and a value leave. -/
def assign (f : κ → Option α) (pairs : List (κ × α)) : κ → Option α :=
  pairs.foldl (fun f pair => Function.update f pair.1 (some pair.2)) f

/-- A loop that sets what is built from the values of keys. -/
theorem foldlM_assign {set : β → α → κ → Option β} {build : (κ → Option α) → β}
    {ok : α → κ → Bool}
    (hset : ∀ f value k, set (build f) value k =
      if ok value k then some (build (Function.update f k (some value))) else none)
    (f : κ → Option α) {pairs : List (κ × α)} (hok : ∀ pair ∈ pairs, ok pair.2 pair.1 = true) :
    pairs.foldlM (fun c pair => set c pair.2 pair.1) (build f) =
      some (build (assign f pairs)) := by
  induction pairs generalizing f with
  | nil => rfl
  | cons pair pairs ih =>
      rw [List.foldlM_cons, hset, if_pos (hok pair (List.mem_cons_self ..))]
      exact ih _ fun q hq => hok q (List.mem_cons_of_mem _ hq)

end Assign

section Options

variable {δ : Type} (cast : LexicalCast δ)

/-- A value that an option can have. -/
def okOption (value : List Char) : CmdOption → Bool
  | .ip | .peerIp => true
  | .standalone | .debugShuffle => (cast.bool value).isSome
  | .shuffleP => (cast.double value).isSome
  | _ => (cast.int value).isSome

/-- A number that an option may have been given. -/
def optionNumber (f : CmdOption → Option (List Char)) (o : CmdOption) (default : Int) : Int :=
  ((f o).bind cast.int).getD default

/-- The configuration in which every option has at most one value. -/
def byOptions (p : δ) (f : CmdOption → Option (List Char)) : CmdConfig δ where
  relayIp := (f .ip).getD ['0', '.', '0', '.', '0', '.', '0']
  relayPort := optionNumber cast f .port 3010
  key := (f .key).bind cast.int
  fields :=
    { peerIp := (f .peerIp).getD ['1', '0', '.', '2', '2', '.', '1', '.', '1', '6']
      peerPort := optionNumber cast f .peerPort 3010
      debug := optionNumber cast f .debug 0 != 0
      ringBits := optionNumber cast f .keyRange 10
      msgRate := optionNumber cast f .msgRate 10
      minPool := optionNumber cast f .poolSize 10
      btTime := optionNumber cast f .btTime 10
      debugShuffle := ((f .debugShuffle).bind cast.bool).getD false
      cntInterval := optionNumber cast f .cntTime 1
      shuffleP := ((f .shuffleP).bind cast.double).getD p
      recheck := optionNumber cast f .recheck 10
      checkwait := optionNumber cast f .checkwait 2
      p2pTimeBefore := optionNumber cast f .p2pTimeBefore 10
      p2pTimeAfter := optionNumber cast f .p2pTimeAfter 1
      sendDummy := optionNumber cast f .sendDummy 0
      checkFailure := optionNumber cast f .checkFailure 0 }

/-- An option takes its value, if it can have it. -/
theorem set_byOptions (p : δ) (f : CmdOption → Option (List Char)) (value : List Char)
    (o : CmdOption) :
    (byOptions cast p f).set cast value o =
      if okOption cast value o then some (byOptions cast p (Function.update f o (some value)))
      else none := by
  cases o with
  | ip | peerIp =>
      simp [CmdConfig.set, CmdConfig.setField, okOption, byOptions, optionNumber]
  | standalone | debugShuffle =>
      cases hb : cast.bool value with
      | none => simp [CmdConfig.set, CmdConfig.setField, okOption, hb]
      | some b => simp [CmdConfig.set, CmdConfig.setField, okOption, byOptions, optionNumber, hb]
  | shuffleP =>
      cases hx : cast.double value with
      | none => simp [CmdConfig.set, CmdConfig.setField, okOption, hx]
      | some x => simp [CmdConfig.set, CmdConfig.setField, okOption, byOptions, optionNumber, hx]
  | port | key | keyRange | daemon | peerPort | debug | msgRate | poolSize | btTime | cntTime
  | recheck | checkwait | p2pTimeBefore | p2pTimeAfter | checkFailure | sendDummy =>
      cases hz : cast.int value with
      | none => simp [CmdConfig.set, CmdConfig.setField, okOption, hz]
      | some z => simp [CmdConfig.set, CmdConfig.setField, okOption, byOptions, optionNumber, hz]

/-- What `init_from_cmd` leaves, if every option can have its value. -/
theorem initFromCmd_eq (p : δ) {args : List (CmdOption × List Char)}
    (hnodup : (args.map Prod.fst).Nodup)
    (hok : ∀ arg ∈ args, okOption cast arg.2 arg.1 = true) {key : Int}
    (hkey : (assign (fun _ => none) args .key).bind cast.int = some key) :
    CmdConfig.initFromCmd cast p args =
      let c := byOptions cast p (assign (fun _ => none) args)
      some { c with fields := { c.fields with relayId := (key % 2 ^ 64).toNat } } := by
  have hfold : args.foldlM (fun c arg => c.set cast arg.2 arg.1)
      ({ fields := { shuffleP := p } } : CmdConfig δ) =
        some (byOptions cast p (assign (fun _ => none) args)) :=
    foldlM_assign (set_byOptions cast p) (fun _ => none) hok
  unfold CmdConfig.initFromCmd
  rw [if_pos hnodup, hfold]
  simp only [byOptions, hkey, Option.map_some]

end Options

end Daenet.Proofs
