import Daenet.Proofs.ConfigFile
import Daenet.Proofs.SocketConfig
import Daenet.Ref.Deployment
import Daenet.Spec.Session

/-!
# From the script to the ring

What `deploy-dae.py` writes is read back as it was meant, from the files of the applications
and from the command lines of the relays (`file_read`, `options_read`). It starts a node at
every host and takes the ids of its list one after the other, so the nodes stand on one ring,
all told of the same one of them. The two nodes of a pair have the two ends of one session.
This is what the theorems about the ring and about dead drops suppose.
-/

namespace Daenet.Proofs

open Daenet.Lib Daenet.Ref Daenet.Spec

/-! ## The files of the applications -/

section Files

theorem ofWord_name (k : ConfigKey) : ConfigKey.ofWord k.name = some k := by
  cases k <;> rfl

theorem isWord_name (k : ConfigKey) : IsWord k.name := by
  cases k <;> exact isWord_of_all rfl rfl

theorem readPair_consumes : Consumes FileConfig.readPair := by
  intro text pair rest hread
  unfold FileConfig.readPair at hread
  split at hread
  · cases hread
  · next key text₁ hkey =>
      have h₁ := readWord_length hkey
      split at hread
      · cases hread
      · next value text₂ hvalue =>
          have h₂ := readWord_length hvalue
          cases hread
          omega

theorem readPair_blank {c : Char} (hc : isBlank c = true) (text : List Char) :
    FileConfig.readPair (c :: text) = FileConfig.readPair text := by
  unfold FileConfig.readPair
  rw [readWord_blank hc]

theorem readPair_line {value rest : List Char} (k : ConfigKey) (hvalue : IsWord value)
    (hrest : EndsWord rest) :
    FileConfig.readPair (k.name ++ ' ' :: (value ++ rest)) = some ((k.name, value), rest) := by
  unfold FileConfig.readPair
  rw [readWord_append (isWord_name k) (endsWord_cons isBlank_space)]
  simp only
  rw [readWord_blank isBlank_space, readWord_append hvalue hrest]

/-- The lines of some keys and values. -/
def written (pairs : List (ConfigKey × List Char)) : List Char :=
  pairs.flatMap fun pair => Deployment.line pair.1 pair.2

/-- They are read back in order. -/
theorem records_written {pairs : List (ConfigKey × List Char)}
    (h : ∀ pair ∈ pairs, IsWord pair.2) (rest : List Char) :
    records FileConfig.readPair (written pairs ++ rest) =
      (pairs.map fun pair => (pair.1.name, pair.2)) ++ records FileConfig.readPair rest := by
  induction pairs with
  | nil => rfl
  | cons pair pairs ih =>
      have hline : written (pair :: pairs) ++ rest =
          pair.1.name ++ ' ' :: (pair.2 ++ '\n' :: (written pairs ++ rest)) := by
        simp [written, Deployment.line]
      rw [hline, records_eq readPair_consumes, readPair_line pair.1
        (h pair (List.mem_cons_self ..)) (endsWord_cons isBlank_newline)]
      simp only
      rw [records_blank readPair_consumes (readPair_blank isBlank_newline),
        ih fun q hq => h q (List.mem_cons_of_mem _ hq), List.map_cons, List.cons_append]

/-- The numbers that the script is told can be written and read. -/
structure Deployable (d : Deployment) : Prop where
  bits : d.bits < 2 ^ 31
  p2pTimeBefore : d.p2pTimeBefore < 2 ^ 31
  p2pTimeAfter : d.p2pTimeAfter < 2 ^ 31
  msgRate : d.msgRate < 2 ^ 31
  poolSize : d.poolSize < 2 ^ 31
  shuffleP : IsWord d.shuffleP
  delay : d.delay < 2 ^ 31
  recheck : d.recheck < 2 ^ 31
  checkwait : d.checkwait < 2 ^ 31
  cntInterval : d.cntInterval < 2 ^ 31

/-- A line that is there or not. -/
def optional {κ : Type} (b : Bool) (k : κ) (value : List Char) : List (κ × List Char) :=
  if b then [(k, value)] else []

/-- The keys and values of a file, in order, but for the last. -/
def filePairs (d : Deployment) (peer : Host) (server : Bool) (idx nodeId : Nat) :
    List (ConfigKey × List Char) :=
  List.flatten
    [[(.m, toText d.bits), (.p2pTimeBefore, toText d.p2pTimeBefore),
        (.p2pTimeAfter, toText d.p2pTimeAfter), (.msgRate, toText d.msgRate),
        (.poolSize, toText d.poolSize), (.shuffleP, d.shuffleP), (.btTime, toText d.delay),
        (.recheck, toText d.recheck), (.checkwait, toText d.checkwait)],
      optional d.printShuffle .debugShuffle ['t', 'r', 'u', 'e'],
      [(.debug, ['T', 'r', 'u', 'e']), (.cntTime, toText d.cntInterval),
        (.shuffle, ['s', 'h', 'u', 'f', 'f', 'l', 'e']), (.transmission, ['1'])],
      optional server .server ['1'],
      [(.session, toText (idx + 1)), (.seed, toText (idx + 1)), (.key, toText nodeId),
        (.peerIp, peer.1)]]

theorem file_eq (d : Deployment) (peer : Host) (server : Bool) (idx nodeId : Nat) :
    d.file peer server idx nodeId = written (filePairs d peer server idx nodeId) ++
      (ConfigKey.peerPort.name ++ ' ' :: toText peer.2) := by
  unfold Deployment.file Deployment.content filePairs
  cases d.printShuffle <;> cases server <;> simp [written, optional]

/-- The value of every key in a file. -/
def fileValue (d : Deployment) (peer : Host) (server : Bool) (idx nodeId : Nat) :
    ConfigKey → Option (List Char)
  | .peerIp => some peer.1
  | .peerPort => some (toText peer.2)
  | .debug => some ['T', 'r', 'u', 'e']
  | .key => some (toText nodeId)
  | .m => some (toText d.bits)
  | .session => some (toText (idx + 1))
  | .transmission => some ['1']
  | .seed => some (toText (idx + 1))
  | .server => if server then some ['1'] else none
  | .msgRate => some (toText d.msgRate)
  | .poolSize => some (toText d.poolSize)
  | .btTime => some (toText d.delay)
  | .debugShuffle => if d.printShuffle then some ['t', 'r', 'u', 'e'] else none
  | .shuffle => some ['s', 'h', 'u', 'f', 'f', 'l', 'e']
  | .cntTime => some (toText d.cntInterval)
  | .shuffleP => some d.shuffleP
  | .recheck => some (toText d.recheck)
  | .checkwait => some (toText d.checkwait)
  | .p2pTimeBefore => some (toText d.p2pTimeBefore)
  | .p2pTimeAfter => some (toText d.p2pTimeAfter)
  | .sendDummy => none
  | .checkFailure => none

theorem assign_filePairs (d : Deployment) (peer : Host) (server : Bool) (idx nodeId : Nat) :
    assign (fun _ => none) (filePairs d peer server idx nodeId ++ [(.peerPort, toText peer.2)]) =
      fileValue d peer server idx nodeId := by
  funext k
  unfold filePairs fileValue
  cases d.printShuffle <;> cases server <;> cases k <;> rfl

/-- The configuration that the script means. -/
def meant {δ : Type} (d : Deployment) (x : δ) (peer : Host) (server : Bool)
    (idx nodeId : Nat) : FileConfig δ where
  peerIp := peer.1
  peerPort := peer.2
  debug := true
  relayId := nodeId
  ringBits := d.bits
  session := idx + 1
  transmission := ['1']
  seed := some (idx + 1)
  isServer := server
  msgRate := d.msgRate
  minPool := d.poolSize
  btTime := d.delay
  debugShuffle := d.printShuffle
  cntInterval := d.cntInterval
  shuffleP := x
  recheck := d.recheck
  checkwait := d.checkwait
  p2pTimeBefore := d.p2pTimeBefore
  p2pTimeAfter := d.p2pTimeAfter

theorem number_text {f : ConfigKey → Option (List Char)} {k : ConfigKey} {n : Nat}
    {default : Int} (hf : f k = some (toText n)) (hn : n < 2 ^ 31) : number f k default = n := by
  rw [number, hf, Option.bind_some, stoi_toText hn]
  rfl

theorem emod_id {n : Nat} (hn : n < 2 ^ 31) : ((n : Int) % 2 ^ 64).toNat = n := by
  rw [Int.emod_eq_of_lt (by omega) (by omega)]
  rfl

/-- The values of a file are those that the script means. -/
theorem byKeys_fileValue {δ : Type} {stod : List Char → Option δ} {d : Deployment} {x : δ}
    {peer : Host} (hd : Deployable d) (hx : stod d.shuffleP = some x)
    (hpeer : peer.2 < 2 ^ 31) (p : δ) (server : Bool) {idx nodeId : Nat}
    (hidx : idx + 1 < 2 ^ 31) (hid : nodeId < 2 ^ 31) :
    byKeys stod p (fileValue d peer server idx nodeId) = meant d x peer server idx nodeId := by
  have hseed : (fileValue d peer server idx nodeId .seed).bind stoi =
      some ((idx + 1 : Nat) : Int) := stoi_toText hidx
  have hshuffle : ((fileValue d peer server idx nodeId .shuffleP).bind stod).getD p = x := by
    rw [fileValue, Option.bind_some, hx]
    rfl
  have hserver : (fileValue d peer server idx nodeId .server).isSome = server := by
    cases server <;> rfl
  have hprint : (fileValue d peer server idx nodeId .debugShuffle).isSome = d.printShuffle := by
    rw [fileValue]
    cases d.printShuffle <;> rfl
  unfold byKeys meant
  rw [hseed, hshuffle, hserver, hprint, number_text rfl hpeer, number_text rfl hid,
    emod_id hid, number_text rfl hd.bits, number_text rfl hidx, number_text rfl hd.msgRate,
    number_text rfl hd.poolSize, number_text rfl hd.delay, number_text rfl hd.cntInterval,
    number_text rfl hd.recheck, number_text rfl hd.checkwait, number_text rfl hd.p2pTimeBefore,
    number_text rfl hd.p2pTimeAfter]
  rfl

theorem isWord_toText (n : Nat) : IsWord (toText n) := isWord_digits n

/-- A line that is read, with a value that its key can have. -/
def Legal {δ : Type} (stod : List Char → Option δ) (pair : ConfigKey × List Char) : Prop :=
  IsWord pair.2 ∧ okValue stod pair.2 pair.1 = true

theorem legal_number {δ : Type} {stod : List Char → Option δ} {n : Nat} (hn : n < 2 ^ 31)
    {k : ConfigKey} (hk : k ≠ .shuffleP) : Legal stod (k, toText n) := by
  refine ⟨isWord_toText n, ?_⟩
  have hsome : (stoi (toText n)).isSome = true := by
    rw [stoi_toText hn]
    rfl
  cases k with
  | shuffleP => exact absurd rfl hk
  | peerIp | debug | transmission | server | debugShuffle | shuffle => rfl
  | peerPort | key | m | session | seed | msgRate | poolSize | btTime | cntTime | recheck
  | checkwait | p2pTimeBefore | p2pTimeAfter | sendDummy | checkFailure => exact hsome

theorem legal_optional {δ : Type} {stod : List Char → Option δ} {b : Bool} {k : ConfigKey}
    {value : List Char} (h : Legal stod (k, value)) :
    ∀ pair ∈ optional b k value, Legal stod pair := by
  intro pair hpair
  cases b with
  | false => exact absurd hpair List.not_mem_nil
  | true =>
      rw [List.mem_singleton.mp hpair]
      exact h

theorem legal_filePairs {δ : Type} {stod : List Char → Option δ} {d : Deployment} {x : δ}
    {peer : Host} (hd : Deployable d) (hx : stod d.shuffleP = some x) (hpeer : IsWord peer.1)
    (server : Bool) {idx nodeId : Nat} (hidx : idx + 1 < 2 ^ 31) (hid : nodeId < 2 ^ 31) :
    ∀ pair ∈ filePairs d peer server idx nodeId, Legal stod pair := by
  have hshuffle : Legal stod (.shuffleP, d.shuffleP) :=
    ⟨hd.shuffleP, by rw [okValue, hx]; rfl⟩
  intro pair hpair
  obtain ⟨part, hpart, hmem⟩ := List.mem_flatten.mp hpair
  simp only [List.mem_cons, List.not_mem_nil, or_false] at hpart
  rcases hpart with rfl | rfl | rfl | rfl | rfl
  · simp only [List.mem_cons, List.not_mem_nil, or_false] at hmem
    rcases hmem with rfl | rfl | rfl | rfl | rfl | rfl | rfl | rfl | rfl
    · exact legal_number hd.bits (by decide)
    · exact legal_number hd.p2pTimeBefore (by decide)
    · exact legal_number hd.p2pTimeAfter (by decide)
    · exact legal_number hd.msgRate (by decide)
    · exact legal_number hd.poolSize (by decide)
    · exact hshuffle
    · exact legal_number hd.delay (by decide)
    · exact legal_number hd.recheck (by decide)
    · exact legal_number hd.checkwait (by decide)
  · exact legal_optional ⟨isWord_of_all rfl rfl, rfl⟩ pair hmem
  · simp only [List.mem_cons, List.not_mem_nil, or_false] at hmem
    rcases hmem with rfl | rfl | rfl | rfl
    · exact ⟨isWord_of_all rfl rfl, rfl⟩
    · exact legal_number hd.cntInterval (by decide)
    · exact ⟨isWord_of_all rfl rfl, rfl⟩
    · exact ⟨isWord_of_all rfl rfl, rfl⟩
  · exact legal_optional ⟨isWord_of_all rfl rfl, rfl⟩ pair hmem
  · simp only [List.mem_cons, List.not_mem_nil, or_false] at hmem
    rcases hmem with rfl | rfl | rfl | rfl
    · exact legal_number hidx (by decide)
    · exact legal_number hidx (by decide)
    · exact legal_number hid (by decide)
    · exact ⟨hpeer, rfl⟩

/-- A line with a key that is known sets it. -/
theorem turns_named {δ : Type} (stod : List Char → Option δ) (c : FileConfig δ)
    (pairs : List (ConfigKey × List Char)) :
    (pairs.map fun pair => (pair.1.name, pair.2)).foldlM (FileConfig.turn stod) c =
      pairs.foldlM (fun c pair => c.set stod pair.2 pair.1) c := by
  rw [List.foldlM_map]
  refine congrArg (fun f => pairs.foldlM f c) (funext fun c => funext fun pair => ?_)
  rw [FileConfig.turn, ofWord_name]

/-- A file is read as it was meant. -/
theorem file_read {δ : Type} {stod : List Char → Option δ} {d : Deployment} {x : δ}
    {peer : Host} (hd : Deployable d) (hx : stod d.shuffleP = some x) (hword : IsWord peer.1)
    (hport : peer.2 < 2 ^ 31) (p : δ) (server : Bool) {idx nodeId : Nat}
    (hidx : idx + 1 < 2 ^ 31) (hid : nodeId < 2 ^ 31) :
    FileConfig.readFromFile stod p (d.file peer server idx nodeId) =
      some (meant d x peer server idx nodeId) := by
  have hlegal := legal_filePairs hd hx hword server hidx hid
  have hlast : records FileConfig.readPair (ConfigKey.peerPort.name ++ ' ' :: toText peer.2) =
      [(ConfigKey.peerPort, toText peer.2)].map fun pair => (pair.1.name, pair.2) := by
    have hline := readPair_line .peerPort (isWord_toText peer.2) endsWord_nil
    rw [List.append_nil] at hline
    rw [records_eq readPair_consumes, hline]
    rfl
  unfold FileConfig.readFromFile
  rw [file_eq, records_written (fun pair hpair => (hlegal pair hpair).1), hlast,
    ← List.map_append, turns_named]
  change List.foldlM _ (byKeys stod p fun _ => none) _ = _
  rw [foldlM_assign (set_byKeys stod p), assign_filePairs,
    byKeys_fileValue hd hx hport p server hidx hid]
  intro pair hpair
  rcases List.mem_append.mp hpair with hmem | hmem
  · exact (hlegal pair hmem).2
  · rw [List.mem_singleton.mp hmem]
    exact (legal_number hport (by decide)).2

end Files

/-! ## The command lines of the relays -/

section Options

variable {δ : Type} {cast : LexicalCast δ}

/-- How `CLI11` reads the numbers that the script writes. -/
structure ReadsNumbers (cast : LexicalCast δ) : Prop where
  int : ∀ n < 2 ^ 31, cast.int (toText n) = some (n : Int)
  bool : cast.bool ['1'] = some true

/-- The value of every option of a relay. -/
def optionValue (d : Deployment) (peer host : Host) (nodeId : Nat) :
    CmdOption → Option (List Char)
  | .ip => some host.1
  | .port => some (toText host.2)
  | .key => some (toText nodeId)
  | .keyRange => some (toText d.bits)
  | .daemon => if d.daemon then some (toText 1) else none
  | .peerIp => some peer.1
  | .peerPort => some (toText peer.2)
  | .standalone => none
  | .debug => some (toText 1)
  | .msgRate => some (toText d.msgRate)
  | .poolSize => some (toText d.poolSize)
  | .btTime => some (toText d.delay)
  | .cntTime => some (toText d.cntInterval)
  | .debugShuffle => if d.printShuffle then some ['1'] else none
  | .shuffleP => some d.shuffleP
  | .recheck => some (toText d.recheck)
  | .checkwait => some (toText d.checkwait)
  | .p2pTimeBefore => some (toText d.p2pTimeBefore)
  | .p2pTimeAfter => some (toText d.p2pTimeAfter)
  | .checkFailure => none
  | .sendDummy => none

theorem assign_options (d : Deployment) (peer host : Host) (nodeId : Nat) :
    assign (fun _ => none) (d.options peer host nodeId) = optionValue d peer host nodeId := by
  funext o
  unfold Deployment.options optionValue
  cases d.printShuffle <;> cases d.daemon <;> cases o <;> rfl

/-- The options that are given. -/
def optionNames (print daemon : Bool) : List CmdOption :=
  List.flatten
    [[.ip, .port, .debug, .key, .cntTime],
      if print then [.debugShuffle] else [],
      [.shuffleP, .recheck, .checkwait, .p2pTimeBefore, .p2pTimeAfter, .peerIp, .peerPort,
        .keyRange, .msgRate, .poolSize, .btTime],
      if daemon then [.daemon] else []]

theorem optionNames_nodup : ∀ print daemon : Bool, (optionNames print daemon).Nodup := by decide

/-- No option is given twice. -/
theorem options_nodup (d : Deployment) (peer host : Host) (nodeId : Nat) :
    ((d.options peer host nodeId).map Prod.fst).Nodup := by
  have heq : (d.options peer host nodeId).map Prod.fst =
      optionNames d.printShuffle d.daemon := by
    unfold Deployment.options optionNames
    cases d.printShuffle <;> cases d.daemon <;> rfl
  rw [heq]
  exact optionNames_nodup d.printShuffle d.daemon

theorem okOption_options (hcast : ReadsNumbers cast) {d : Deployment} {y : δ} {peer host : Host}
    {nodeId : Nat} (hd : Deployable d) (hy : cast.double d.shuffleP = some y)
    (hpeer : peer.2 < 2 ^ 31) (hhost : host.2 < 2 ^ 31) (hid : nodeId < 2 ^ 31) :
    ∀ arg ∈ d.options peer host nodeId, okOption cast arg.2 arg.1 = true := by
  have hnumber : ∀ {n : Nat}, n < 2 ^ 31 → (cast.int (toText n)).isSome = true := by
    intro n hn
    rw [hcast.int n hn]
    rfl
  have hshuffle : okOption cast d.shuffleP .shuffleP = true := by
    rw [okOption, hy]
    rfl
  have hprint : okOption cast ['1'] .debugShuffle = true := by
    rw [okOption, hcast.bool]
    rfl
  intro arg harg
  obtain ⟨part, hpart, hmem⟩ := List.mem_flatten.mp harg
  simp only [List.mem_cons, List.not_mem_nil, or_false] at hpart
  rcases hpart with rfl | rfl | rfl | rfl
  · simp only [List.mem_cons, List.not_mem_nil, or_false] at hmem
    rcases hmem with rfl | rfl | rfl | rfl | rfl
    · rfl
    · exact hnumber hhost
    · exact hnumber (n := 1) (by decide)
    · exact hnumber hid
    · exact hnumber hd.cntInterval
  · split at hmem
    · rw [List.mem_singleton.mp hmem]
      exact hprint
    · exact absurd hmem List.not_mem_nil
  · simp only [List.mem_cons, List.not_mem_nil, or_false] at hmem
    rcases hmem with rfl | rfl | rfl | rfl | rfl | rfl | rfl | rfl | rfl | rfl | rfl
    · exact hshuffle
    · exact hnumber hd.recheck
    · exact hnumber hd.checkwait
    · exact hnumber hd.p2pTimeBefore
    · exact hnumber hd.p2pTimeAfter
    · rfl
    · exact hnumber hpeer
    · exact hnumber hd.bits
    · exact hnumber hd.msgRate
    · exact hnumber hd.poolSize
    · exact hnumber hd.delay
  · split at hmem
    · rw [List.mem_singleton.mp hmem]
      exact hnumber (n := 1) (by decide)
    · exact absurd hmem List.not_mem_nil

/-- The configuration that the script means for a relay. -/
def meantRelay (d : Deployment) (y : δ) (peer host : Host) (nodeId : Nat) : CmdConfig δ where
  relayIp := host.1
  relayPort := host.2
  key := some nodeId
  fields :=
    { peerIp := peer.1
      peerPort := peer.2
      debug := true
      relayId := nodeId
      ringBits := d.bits
      msgRate := d.msgRate
      minPool := d.poolSize
      btTime := d.delay
      debugShuffle := d.printShuffle
      cntInterval := d.cntInterval
      shuffleP := y
      recheck := d.recheck
      checkwait := d.checkwait
      p2pTimeBefore := d.p2pTimeBefore
      p2pTimeAfter := d.p2pTimeAfter }

theorem optionNumber_text (hcast : ReadsNumbers cast) {f : CmdOption → Option (List Char)}
    {o : CmdOption} {n : Nat} {default : Int} (hf : f o = some (toText n)) (hn : n < 2 ^ 31) :
    optionNumber cast f o default = n := by
  rw [optionNumber, hf, Option.bind_some, hcast.int n hn]
  rfl

/-- The options of a relay are read as they were meant. -/
theorem options_read (hcast : ReadsNumbers cast) {d : Deployment} {y : δ} {peer host : Host}
    {nodeId : Nat} (hd : Deployable d) (hy : cast.double d.shuffleP = some y)
    (hpeer : peer.2 < 2 ^ 31) (hhost : host.2 < 2 ^ 31) (hid : nodeId < 2 ^ 31) (p : δ) :
    CmdConfig.initFromCmd cast p (d.options peer host nodeId) =
      some (meantRelay d y peer host nodeId) := by
  have hkey : (optionValue d peer host nodeId .key).bind cast.int = some (nodeId : Int) :=
    hcast.int nodeId hid
  have hprint : ((optionValue d peer host nodeId .debugShuffle).bind cast.bool).getD false =
      d.printShuffle := by
    rw [optionValue]
    cases d.printShuffle with
    | false => rfl
    | true =>
        show (cast.bool ['1']).getD false = true
        rw [hcast.bool]
        rfl
  have hshuffle : ((optionValue d peer host nodeId .shuffleP).bind cast.double).getD p = y := by
    rw [optionValue, Option.bind_some, hy]
    rfl
  have hgiven : (assign (fun _ => none) (d.options peer host nodeId) .key).bind cast.int =
      some (nodeId : Int) := by
    rw [assign_options, hkey]
  rw [initFromCmd_eq cast p (options_nodup d peer host nodeId)
    (okOption_options hcast hd hy hpeer hhost hid) hgiven, assign_options]
  simp only [byOptions, hkey]
  rw [hprint, hshuffle, emod_id hid, optionNumber_text hcast rfl hhost,
    optionNumber_text hcast rfl hpeer, optionNumber_text hcast (n := 1) rfl (by decide),
    optionNumber_text hcast rfl hd.bits, optionNumber_text hcast rfl hd.msgRate,
    optionNumber_text hcast rfl hd.poolSize, optionNumber_text hcast rfl hd.delay,
    optionNumber_text hcast rfl hd.cntInterval, optionNumber_text hcast rfl hd.recheck,
    optionNumber_text hcast rfl hd.checkwait, optionNumber_text hcast rfl hd.p2pTimeBefore,
    optionNumber_text hcast rfl hd.p2pTimeAfter]
  rfl

end Options

/-! ## The nodes of a deployment -/

/-- What a node is started as: one side of a pair, or a relay. -/
inductive Role where
  | app (server : Bool) (idx : Nat)
  | relay
  deriving Inhabited

/-- The two nodes of each pair. -/
def pairMembers (plan : Plan) (idxs : List Nat) : List (Host × Role) :=
  idxs.flatMap fun idx =>
    [(plan.clientServers.getD idx default, .app false idx),
      (plan.clientServers.getD (idx + plan.k) default, .app true idx)]

/-- All nodes, in the order in which they are given their ids. -/
def members (plan : Plan) : List (Host × Role) :=
  pairMembers plan (List.range plan.k) ++
    (Deployment.serverList plan).map fun host => (host, .relay)

/-- How a node is started. -/
def startNode (d : Deployment) (peer : Host) (member : Host × Role) (nodeId : Nat) :
    Host × Started :=
  match member.2 with
  | .app server idx => (member.1, .app (d.file peer server idx nodeId))
  | .relay => (member.1, .relay (d.options peer member.1 nodeId))

theorem startNode_host (d : Deployment) (peer : Host) (member : Host × Role) (nodeId : Nat) :
    (startNode d peer member nodeId).1 = member.1 := by
  unfold startNode
  cases member.2 with
  | app server idx => rfl
  | relay => rfl

section Script

variable {d : Deployment} {plan : Plan} {peer : Host}

theorem pairMembers_length (plan : Plan) (idxs : List Nat) :
    (pairMembers plan idxs).length = 2 * idxs.length := by
  unfold pairMembers
  induction idxs with
  | nil => rfl
  | cons idx idxs ih =>
      rw [List.flatMap_cons, List.length_append, ih, List.length_cons]
      show 2 + 2 * idxs.length = 2 * (idxs.length + 1)
      omega

theorem getElem?_getD {α : Type} {l : List α} {i : Nat} (hi : i < l.length) (a : α) :
    l[i]? = some (l.getD i a) := by
  rw [List.getD_eq_getElem?_getD, List.getElem?_eq_getElem hi]
  rfl

theorem sampleServers_eq (d : Deployment) (peer : Host)
    (hsize : plan.clientServers.length = 2 * plan.k) (idxs : List Nat)
    (hidxs : ∀ idx ∈ idxs, idx < plan.k) (curCnt : Nat)
    (hids : curCnt + 2 * idxs.length ≤ plan.nodeIds.length) :
    d.sampleServers plan peer curCnt idxs =
      some (List.zipWith (startNode d peer) (pairMembers plan idxs)
        (plan.nodeIds.drop curCnt)) := by
  induction idxs generalizing curCnt with
  | nil => rfl
  | cons idx idxs ih =>
      rw [List.length_cons] at hids
      have hlt := hidxs idx (List.mem_cons_self ..)
      have hdrop : plan.nodeIds.drop curCnt = plan.nodeIds[curCnt] ::
          plan.nodeIds[curCnt + 1] :: plan.nodeIds.drop (curCnt + 2) := by
        rw [List.drop_eq_getElem_cons (by omega), List.drop_eq_getElem_cons (by omega)]
      rw [Deployment.sampleServers, getElem?_getD (by omega) default,
        getElem?_getD (by omega : idx + plan.k < plan.clientServers.length) default,
        List.getElem?_eq_getElem (by omega), List.getElem?_eq_getElem (by omega),
        ih (fun i hi => hidxs i (List.mem_cons_of_mem _ hi)) (curCnt + 2) (by omega), hdrop]
      rfl

theorem runAll_eq (d : Deployment) (plan : Plan) (peer : Host) (hosts : List Host)
    (curCnt : Nat) (hids : curCnt + hosts.length ≤ plan.nodeIds.length) :
    d.runAll plan peer curCnt hosts =
      some (List.zipWith (startNode d peer) (hosts.map fun host => (host, Role.relay))
        (plan.nodeIds.drop curCnt)) := by
  induction hosts generalizing curCnt with
  | nil => rfl
  | cons host hosts ih =>
      rw [List.length_cons] at hids
      rw [Deployment.runAll, List.getElem?_eq_getElem (by omega), ih (curCnt + 1) (by omega),
        List.drop_eq_getElem_cons (by omega : curCnt < plan.nodeIds.length)]
      rfl

/-- The nodes that the script starts, the `i`-th with the `i`-th id. -/
def deployedNodes (d : Deployment) (plan : Plan) (peer : Host) : List (Host × Started) :=
  List.zipWith (startNode d peer) (members plan) plan.nodeIds

theorem deploy_eq (d : Deployment) (hsize : plan.clientServers.length = 2 * plan.k)
    (hids : (members plan).length ≤ plan.nodeIds.length)
    (hpeer : plan.staticNodes[0]? = some peer) :
    d.deploy plan = some (deployedNodes d plan peer) := by
  have hlen : (pairMembers plan (List.range plan.k)).length = 2 * plan.k := by
    rw [pairMembers_length, List.length_range]
  have hcount : (members plan).length = 2 * plan.k + (Deployment.serverList plan).length := by
    rw [members, List.length_append, hlen, List.length_map]
  have hsample := sampleServers_eq d peer hsize (List.range plan.k)
    (fun idx hidx => List.mem_range.mp hidx) 0 (by rw [List.length_range]; omega)
  have hrun := runAll_eq d plan peer (Deployment.serverList plan) (2 * plan.k) (by omega)
  -- the ids of the relays begin behind those of the pairs
  have hsplit : deployedNodes d plan peer =
      List.zipWith (startNode d peer) (pairMembers plan (List.range plan.k))
        (plan.nodeIds.take (2 * plan.k)) ++
      List.zipWith (startNode d peer)
        ((Deployment.serverList plan).map fun host => (host, Role.relay))
        (plan.nodeIds.drop (2 * plan.k)) := by
    rw [← List.zipWith_append (by rw [hlen, List.length_take]; omega),
      List.take_append_drop, deployedNodes, members]
  have htake : List.zipWith (startNode d peer) (pairMembers plan (List.range plan.k))
        (plan.nodeIds.take (2 * plan.k)) =
      List.zipWith (startNode d peer) (pairMembers plan (List.range plan.k)) plan.nodeIds := by
    symm
    rw [List.zipWith_eq_zipWith_take_min, hlen, Nat.min_eq_left (by omega),
      List.take_of_length_le (Nat.le_of_eq hlen)]
  rw [List.drop_zero] at hsample
  rw [hsplit, htake]
  simp only [Deployment.deploy, hpeer, hsample, hrun, Option.bind_eq_bind, Option.bind_some]
  rfl

/-- The sample is drawn without repetition, the rest is what was not drawn, and every host
of the rest is gone through once. -/
structure Plan.Drawn (plan : Plan) (hosts : List Host) : Prop where
  sample : plan.clientServers.Subperm hosts
  size : plan.clientServers.length = 2 * plan.k
  rest : plan.staticNodes.Nodup
  mem_rest : ∀ host, host ∈ plan.staticNodes ↔ host ∈ hosts ∧ host ∉ plan.clientServers
  servers : plan.servers.Nodup
  mem_servers : ∀ server, server ∈ plan.servers ↔ ∃ host ∈ plan.staticNodes, host.1 = server

theorem serverPort_nodup {servers : List (List Char)} (h : servers.Nodup) (n : Nat) :
    (serverPort servers n).Nodup := by
  refine List.nodup_flatMap.mpr ⟨fun host _ => ?_, ?_⟩
  · refine List.nodup_range.map fun idx idx' heq => ?_
    have := congrArg Prod.snd heq
    dsimp only at this
    omega
  · have hne : (servers.zipIdx.map Prod.fst).Nodup := by rwa [List.zipIdx_map_fst]
    refine (List.pairwise_map.mp hne).imp fun {x y} hxy host hx hy => ?_
    obtain ⟨_, _, rfl⟩ := List.mem_map.mp hx
    obtain ⟨_, _, heq⟩ := List.mem_map.mp hy
    exact hxy (congrArg Prod.fst heq).symm

theorem serverList_nodup {hosts : List Host} (h : Plan.Drawn plan hosts) :
    (Deployment.serverList plan).Nodup := by
  refine List.nodup_flatMap.mpr ⟨fun server _ => h.rest.filter _, ?_⟩
  refine h.servers.imp fun {x y} hxy host hx hy => ?_
  have hx' := eq_of_beq (List.mem_filter.mp hx).2
  have hy' := eq_of_beq (List.mem_filter.mp hy).2
  exact hxy (hx'.symm.trans hy')

theorem mem_serverList {hosts : List Host} (h : Plan.Drawn plan hosts) (host : Host) :
    host ∈ Deployment.serverList plan ↔ host ∈ plan.staticNodes := by
  unfold Deployment.serverList
  rw [List.mem_flatMap]
  constructor
  · rintro ⟨server, _, hmem⟩
    exact (List.mem_filter.mp hmem).1
  · intro hmem
    exact ⟨host.1, (h.mem_servers host.1).mpr ⟨host, hmem, rfl⟩,
      List.mem_filter.mpr ⟨hmem, beq_self_eq_true _⟩⟩

/-- The pairs are the whole sample. -/
theorem pairMembers_perm (hsize : plan.clientServers.length = 2 * plan.k) :
    ((pairMembers plan (List.range plan.k)).map Prod.fst).Perm plan.clientServers := by
  have hall : (List.range (plan.k + plan.k)).map (plan.clientServers.getD · default) =
      plan.clientServers := by
    refine List.ext_getElem (by rw [List.length_map, List.length_range]; omega) ?_
    intro i hi hi'
    rw [List.getElem_map, List.getElem_range, List.getD_eq_getElem?_getD,
      List.getElem?_eq_getElem hi']
    rfl
  have hhalves : (List.range plan.k).map (plan.clientServers.getD · default) ++
      (List.range plan.k).flatMap
        (fun idx => [plan.clientServers.getD (idx + plan.k) default]) = plan.clientServers := by
    refine Eq.trans ?_ hall
    rw [← List.map_eq_flatMap, List.range_add, List.map_append, List.map_map]
    refine congrArg _ (List.map_congr_left fun idx _ => ?_)
    rw [Function.comp_apply, Nat.add_comm]
  unfold pairMembers
  rw [List.map_flatMap]
  refine List.Perm.trans ?_ (List.Perm.of_eq hhalves)
  exact (List.map_append_flatMap_perm (List.range plan.k) (plan.clientServers.getD · default)
    fun idx => [plan.clientServers.getD (idx + plan.k) default]).symm

/-- Every host is started once. -/
theorem members_perm {hosts : List Host} (hhosts : hosts.Nodup) (h : Plan.Drawn plan hosts) :
    ((members plan).map Prod.fst).Perm hosts := by
  have hsplit : ((members plan).map Prod.fst).Perm
      (plan.clientServers ++ Deployment.serverList plan) := by
    rw [members, List.map_append, List.map_map]
    refine (pairMembers_perm h.size).append (List.Perm.of_eq ?_)
    exact List.map_id _
  obtain ⟨sample, hperm, hsub⟩ := h.sample
  have hsample : plan.clientServers.Nodup := hperm.nodup_iff.mp (hhosts.sublist hsub)
  have hmem : ∀ host ∈ plan.clientServers, host ∈ hosts :=
    fun host hhost => hsub.subset (hperm.mem_iff.mpr hhost)
  refine hsplit.trans ((List.perm_ext_iff_of_nodup ?_ hhosts).mpr fun host => ?_)
  · refine List.nodup_append.mpr ⟨hsample, serverList_nodup h, ?_⟩
    rintro host hhost _ hrest rfl
    exact ((h.mem_rest host).mp ((mem_serverList h host).mp hrest)).2 hhost
  · rw [List.mem_append, mem_serverList h, h.mem_rest]
    constructor
    · rintro (hhost | hhost)
      · exact hmem host hhost
      · exact hhost.1
    · intro hhost
      by_cases hin : host ∈ plan.clientServers
      · exact .inl hin
      · exact .inr ⟨hhost, hin⟩

/-- The configuration that the script means for a node. -/
def meantNode {δ : Type} (d : Deployment) (x y : δ) (peer : Host) (member : Host × Role)
    (nodeId : Nat) : CmdConfig δ :=
  match member.2 with
  | .app server idx =>
      { relayIp := member.1.1
        relayPort := member.1.2
        fields := meant d x peer server idx nodeId }
  | .relay => meantRelay d y peer member.1 nodeId

section Meant

variable {δ : Type} (d : Deployment) (x y : δ) (peer : Host) (member : Host × Role)
  (nodeId : Nat)

theorem meantNode_relayId :
    (meantNode d x y peer member nodeId).relayConfig.relayId = nodeId := by
  unfold meantNode
  cases member.2 <;> rfl

theorem meantNode_ringBits :
    (meantNode d x y peer member nodeId).relayConfig.ringBits = d.bits := by
  unfold meantNode
  cases member.2 <;> rfl

theorem meantNode_addr :
    ((meantNode d x y peer member nodeId).relayConfig.relayIp,
      (meantNode d x y peer member nodeId).relayConfig.relayPort) =
        (String.ofList member.1.1, (member.1.2 : Int)) := by
  unfold meantNode
  cases member.2 <;> rfl

theorem meantNode_initPeers :
    (meantNode d x y peer member nodeId).relayConfig.initPeers =
      ⟨String.ofList peer.1, peer.2, 0⟩ := by
  unfold meantNode
  cases member.2 <;> rfl

theorem meantNode_debug : (meantNode d x y peer member nodeId).fields.debug = true := by
  unfold meantNode
  cases member.2 <;> rfl

end Meant

theorem meantNode_app {δ : Type} (d : Deployment) (x y : δ) (peer : Host)
    {member : Host × Role} (nodeId : Nat) {server : Bool} {idx : Nat}
    (hrole : member.2 = .app server idx) :
    (meantNode d x y peer member nodeId).fields = meant d x peer server idx nodeId := by
  rw [meantNode, hrole]

/-- Every node reads what was meant for it. -/
theorem readConfig_startNode {δ : Type} {stod : List Char → Option δ} {cast : LexicalCast δ}
    (hcast : ReadsNumbers cast) {x y : δ} (hd : Deployable d) (hx : stod d.shuffleP = some x)
    (hy : cast.double d.shuffleP = some y) (hpeer : Writable peer) (p : δ)
    {member : Host × Role} (hhost : Writable member.1)
    (hidx : ∀ server idx, member.2 = .app server idx → idx + 1 < 2 ^ 31) {nodeId : Nat}
    (hid : nodeId < 2 ^ 31) :
    (startNode d peer member nodeId).2.readConfig stod cast p
        (startNode d peer member nodeId).1 = some (meantNode d x y peer member nodeId) := by
  unfold startNode meantNode
  cases hrole : member.2 with
  | app server idx =>
      simp only [Started.readConfig]
      rw [file_read hd hx hpeer.ip hpeer.port p server (hidx server idx hrole) hid]
      rfl
  | relay => exact options_read hcast hd hy hpeer.port hhost.port hid p

/-- The nodes of pair `idx` come one after the other. -/
theorem pairMembers_getElem? (plan : Plan) {k idx : Nat} (hidx : idx < k) (server : Bool) :
    (pairMembers plan (List.range k))[2 * idx + server.toNat]? =
      some (plan.clientServers.getD (idx + if server then plan.k else 0) default,
        .app server idx) := by
  induction k with
  | zero => exact absurd hidx (Nat.not_lt_zero _)
  | succ k ih =>
      have hlen : (pairMembers plan (List.range k)).length = 2 * k := by
        rw [pairMembers_length, List.length_range]
      have hsucc : pairMembers plan (List.range (k + 1)) = pairMembers plan (List.range k) ++
          pairMembers plan [k] := by
        rw [List.range_succ, pairMembers, List.flatMap_append]
        rfl
      have hserver : server.toNat ≤ 1 := by cases server <;> decide
      rw [hsucc]
      by_cases hlt : idx < k
      · rw [List.getElem?_append_left (by omega), ih hlt]
      · have heq : idx = k := by omega
        subst heq
        rw [List.getElem?_append_right (by omega), hlen, Nat.add_sub_cancel_left]
        cases server with
        | false => rfl
        | true => rfl

/-- What the script is given: hosts that differ and can be written, ports that there are, a
sample as it draws it that leaves a node, and ids that differ, fit the ring and are enough. -/
structure Plan.Ready (d : Deployment) (plan : Plan) (servers : List (List Char)) (n : Nat) :
    Prop where
  servers_nodup : servers.Nodup
  words : ∀ server ∈ servers, IsWord server
  ports : 3100 + n + servers.length < 2 ^ 16
  drawn : Plan.Drawn plan (serverPort servers n)
  rest : plan.staticNodes ≠ []
  ids_nodup : plan.nodeIds.Nodup
  ids_lt : ∀ nodeId ∈ plan.nodeIds, nodeId < 2 ^ d.bits
  enough : (serverPort servers n).length ≤ plan.nodeIds.length

/-- The member that comes `i`-th, and its id. -/
def memberAt (plan : Plan) (i : Nat) : Host × Role := (members plan).getD i default

def idAt (plan : Plan) (i : Nat) : Nat := plan.nodeIds.getD i 0

section Ready

variable {servers : List (List Char)} {n : Nat}

theorem Plan.Ready.perm (h : Plan.Ready d plan servers n) :
    ((members plan).map Prod.fst).Perm (serverPort servers n) :=
  members_perm (serverPort_nodup h.servers_nodup n) h.drawn

theorem Plan.Ready.writable (h : Plan.Ready d plan servers n) {host : Host}
    (hhost : host ∈ serverPort servers n) : Writable host := by
  obtain ⟨⟨server, i⟩, hserver, hmem⟩ := List.mem_flatMap.mp hhost
  obtain ⟨idx, hidx, rfl⟩ := List.mem_map.mp hmem
  have hports := h.ports
  have hlt := List.mem_range.mp hidx
  have hi := List.snd_lt_of_mem_zipIdx hserver
  exact ⟨h.words server (List.fst_mem_of_mem_zipIdx hserver), by dsimp only; omega⟩

theorem Plan.Ready.members_length (h : Plan.Ready d plan servers n) :
    (members plan).length = (serverPort servers n).length := by
  rw [← List.length_map Prod.fst, h.perm.length_eq]

theorem Plan.Ready.idAt_mem (h : Plan.Ready d plan servers n) {i : Nat}
    (hi : i < (members plan).length) : plan.nodeIds[i]? = some (idAt plan i) := by
  have henough := h.enough
  have hlen := h.members_length
  exact getElem?_getD (by omega) 0

theorem Plan.Ready.memberAt_mem (h : Plan.Ready d plan servers n) {i : Nat}
    (hi : i < (members plan).length) :
    ((members plan).map Prod.fst)[i]? = some (memberAt plan i).1 ∧
      (memberAt plan i).1 ∈ serverPort servers n := by
  have hget : ((members plan).map Prod.fst)[i]? = some (memberAt plan i).1 := by
    rw [List.getElem?_map, getElem?_getD hi default]
    rfl
  exact ⟨hget, h.perm.mem_iff.mp (List.mem_of_getElem? hget)⟩

/-- There are no more ids than the ring has places, and so no more pairs. -/
theorem Plan.Ready.k_lt (h : Plan.Ready d plan servers n) (hle : d.bits ≤ 30) :
    plan.k < 2 ^ 30 := by
  have hsub : plan.nodeIds ⊆ List.range (2 ^ d.bits) :=
    fun nodeId hmem => List.mem_range.mpr (h.ids_lt nodeId hmem)
  have hids := (h.ids_nodup.subperm hsub).length_le
  have hsample := h.drawn.sample.length_le
  have hsize := h.drawn.size
  have henough := h.enough
  have hpow : 2 ^ d.bits ≤ 2 ^ 30 := Nat.pow_le_pow_right (by decide) hle
  rw [List.length_range] at hids
  omega

/-- The ring that the nodes stand on. -/
def deployedRoster {δ : Type} (h : Plan.Ready d plan servers n) (x y : δ) (peer : Host)
    (hbits : 0 < d.bits) (hle : d.bits ≤ 30) {len : Nat} (hlen : len ≤ (members plan).length) :
    Roster (Fin len) where
  m := d.bits
  cfg := fun i => (meantNode d x y peer (memberAt plan i) (idAt plan i)).relayConfig
  bits_pos := hbits
  bits_le := by omega
  ringBits := fun i => meantNode_ringBits d x y peer _ _
  id_lt := by
    intro i
    rw [meantNode_relayId]
    exact h.ids_lt _ (List.mem_of_getElem? (h.idAt_mem (by omega)))
  id_inj := by
    intro i j hij
    dsimp only at hij
    rw [meantNode_relayId, meantNode_relayId] at hij
    have hi := h.idAt_mem (Nat.lt_of_lt_of_le i.isLt hlen)
    have hj := h.idAt_mem (Nat.lt_of_lt_of_le j.isLt hlen)
    rw [hij, ← hj] at hi
    have hlt : i.val < plan.nodeIds.length := by
      have henough := h.enough
      have hcount := h.members_length
      omega
    exact Fin.ext ((List.getElem?_inj hlt h.ids_nodup).mp hi)
  addr_inj := by
    intro i j hij
    dsimp only at hij
    rw [meantNode_addr, meantNode_addr] at hij
    injection hij with hip hport
    have hhost : (memberAt plan i).1 = (memberAt plan j).1 :=
      Prod.ext (String.ofList_injective hip) (Int.ofNat_inj.mp hport)
    have hi := (h.memberAt_mem (Nat.lt_of_lt_of_le i.isLt hlen)).1
    have hj := (h.memberAt_mem (Nat.lt_of_lt_of_le j.isLt hlen)).1
    rw [hhost, ← hj] at hi
    have hnodup := h.perm.nodup_iff.mpr (serverPort_nodup h.servers_nodup n)
    have hlt : i.val < ((members plan).map Prod.fst).length := by
      rw [List.length_map]
      omega
    exact Fin.ext ((List.getElem?_inj hlt hnodup).mp hi)

section Fields

variable {δ : Type} (h : Plan.Ready d plan servers n) (x y : δ) (peer : Host)
  (hbits : 0 < d.bits) (hle : d.bits ≤ 30) {len : Nat} (hlen : len ≤ (members plan).length)
  (i : Fin len)

theorem deployedRoster_id :
    (deployedRoster h x y peer hbits hle hlen).id i = idAt plan i := by
  rw [Roster.id, deployedRoster, meantNode_relayId]

theorem deployedRoster_addr :
    (deployedRoster h x y peer hbits hle hlen).addr i =
      (String.ofList (memberAt plan i).1.1, ((memberAt plan i).1.2 : Int)) := by
  rw [Roster.addr, deployedRoster, meantNode_addr]

end Fields

/-- The members of pair `idx`. -/
theorem Plan.Ready.memberAt_pair (h : Plan.Ready d plan servers n) {idx : Nat}
    (hidx : idx < plan.k) (server : Bool) :
    2 * idx + server.toNat < (members plan).length ∧
    plan.clientServers[idx + if server then plan.k else 0]? =
      some (memberAt plan (2 * idx + server.toNat)).1 ∧
    (memberAt plan (2 * idx + server.toNat)).2 = .app server idx := by
  have hget := pairMembers_getElem? plan hidx server
  have hlt := (List.getElem?_eq_some_iff.mp hget).1
  have hmember : memberAt plan (2 * idx + server.toNat) =
      (plan.clientServers.getD (idx + if server then plan.k else 0) default,
        .app server idx) := by
    rw [memberAt, members, List.getD_eq_getElem?_getD, List.getElem?_append_left hlt, hget]
    rfl
  have hsize := h.drawn.size
  rw [hmember]
  refine ⟨?_, getElem?_getD (by split <;> omega) default, rfl⟩
  rw [members, List.length_append]
  omega

/-- A side of a pair is one of those that there are. -/
theorem app_idx_lt {i idx : Nat} {server : Bool} (hi : i < (members plan).length)
    (h : (memberAt plan i).2 = .app server idx) : idx < plan.k := by
  have hmem : memberAt plan i ∈ members plan :=
    List.mem_of_getElem? (getElem?_getD hi default)
  rcases List.mem_append.mp hmem with hpair | hrelay
  · obtain ⟨idx', hrange, hside⟩ := List.mem_flatMap.mp hpair
    have hlt := List.mem_range.mp hrange
    simp only [List.mem_cons, List.not_mem_nil, or_false] at hside
    rcases hside with heq | heq
    · rw [heq] at h
      cases h
      exact hlt
    · rw [heq] at h
      cases h
      exact hlt
  · obtain ⟨host, _, heq⟩ := List.mem_map.mp hrelay
    rw [← heq] at h
    cases h

theorem Plan.Ready.ids_enough (h : Plan.Ready d plan servers n) :
    (members plan).length ≤ plan.nodeIds.length := by
  rw [h.members_length]
  exact h.enough

theorem Plan.Ready.nodes_length (h : Plan.Ready d plan servers n) (peer : Host) :
    (deployedNodes d plan peer).length = (members plan).length := by
  rw [deployedNodes, List.length_zipWith, Nat.min_eq_left h.ids_enough]

theorem Plan.Ready.nodes_get? (h : Plan.Ready d plan servers n) (peer : Host) {i : Nat}
    (hi : i < (members plan).length) :
    (deployedNodes d plan peer)[i]? = some (startNode d peer (memberAt plan i) (idAt plan i)) := by
  rw [deployedNodes, List.getElem?_zipWith, getElem?_getD hi default, h.idAt_mem hi]
  rfl

theorem Plan.Ready.nodes_get (h : Plan.Ready d plan servers n) (peer : Host)
    (i : Fin (deployedNodes d plan peer).length) :
    (deployedNodes d plan peer)[i] = startNode d peer (memberAt plan i) (idAt plan i) :=
  (List.getElem?_eq_some_iff.mp
    (h.nodes_get? peer (Nat.lt_of_lt_of_eq i.isLt (h.nodes_length peer)))).2

theorem Plan.Ready.nodes_hosts (h : Plan.Ready d plan servers n) (peer : Host) :
    ((deployedNodes d plan peer).map Prod.fst).Perm (serverPort servers n) := by
  have hsame : (deployedNodes d plan peer).map Prod.fst = (members plan).map Prod.fst := by
    refine List.ext_getElem? fun i => ?_
    by_cases hi : i < (members plan).length
    · rw [List.getElem?_map, h.nodes_get? peer hi, (h.memberAt_mem hi).1, Option.map_some,
        startNode_host]
    · rw [List.getElem?_eq_none (by rw [List.length_map, h.nodes_length]; omega),
        List.getElem?_eq_none (by rw [List.length_map]; omega)]
  rw [hsame]
  exact h.perm

/-- Every node reads the configuration that was meant for it. -/
theorem Plan.Ready.nodes_read (h : Plan.Ready d plan servers n) {δ : Type}
    {stod : List Char → Option δ} {cast : LexicalCast δ} (hcast : ReadsNumbers cast) {x y : δ}
    (hd : Deployable d) (hx : stod d.shuffleP = some x) (hy : cast.double d.shuffleP = some y)
    (hle : d.bits ≤ 30) (hpeer : peer ∈ serverPort servers n) (p : δ)
    (i : Fin (deployedNodes d plan peer).length) :
    (deployedNodes d plan peer)[i].2.readConfig stod cast p
        (deployedNodes d plan peer)[i].1 =
      some (meantNode d x y peer (memberAt plan i) (idAt plan i)) := by
  have hi : i.val < (members plan).length := Nat.lt_of_lt_of_eq i.isLt (h.nodes_length peer)
  have hk := h.k_lt hle
  have hid := h.ids_lt _ (List.mem_of_getElem? (h.idAt_mem hi))
  have hpow : 2 ^ d.bits ≤ 2 ^ 30 := Nat.pow_le_pow_right (by decide) hle
  rw [h.nodes_get peer i]
  refine readConfig_startNode hcast hd hx hy (h.writable hpeer) p
    (h.writable (h.memberAt_mem hi).2) ?_ (by omega)
  intro server idx hrole
  have := app_idx_lt hi hrole
  omega

end Ready

/-- The two nodes of a pair, with what stands in the file of either. -/
def pairSession {len idx : Nat} (hlt : ∀ party : Bool, 2 * idx + party.toNat < len) :
    Session (Fin len) where
  node := fun party => ⟨2 * idx + party.toNat, hlt party⟩
  sock := fun _ => 0
  id := idx + 1
  seed := idx + 1
  distinct := fun h => absurd (congrArg Fin.val h) (Nat.ne_of_lt (Nat.lt_succ_self _))

end Script

/-- From the script to the ring. `deploy-dae.py` starts a node at every host, the `i`-th with
the `i`-th id of its list. The nodes stand on one ring: each takes from its file, or from its
command line, the size of the ring, the id that it was given, its own address, and the address
of the first static node, which is one of them. The two nodes of a pair have the two ends of
one session, whose `k`-th messages go to the same dead drop. -/
theorem deployed_nodes_form_a_ring {δ : Type} {stod : List Char → Option δ}
    {cast : LexicalCast δ} (hcast : ReadsNumbers cast) {d : Deployment} {x y : δ}
    (hd : Deployable d) (hx : stod d.shuffleP = some x) (hy : cast.double d.shuffleP = some y)
    (hbits : 0 < d.bits) (hle : d.bits ≤ 30) {servers : List (List Char)} {n : Nat}
    {plan : Plan} (hplan : Plan.Ready d plan servers n) (p : δ) :
    ∃ nodes, d.deploy plan = some nodes ∧ (nodes.map Prod.fst).Perm (serverPort servers n) ∧
      ∃ R : Roster (Fin nodes.length), R.m = d.bits ∧
        (∀ i : Fin nodes.length, ∃ c,
          nodes[i].2.readConfig stod cast p nodes[i].1 = some c ∧ R.cfg i = c.relayConfig ∧
          (∀ random, DAEService.getDaeNodeId (R.cfg i) c.fields.debug random = R.id i) ∧
          plan.nodeIds[i.val]? = some (R.id i) ∧
          R.addr i = (String.ofList nodes[i].1.1, (nodes[i].1.2 : Int))) ∧
        (∃ j : Fin nodes.length, plan.staticNodes[0]? = some nodes[j].1 ∧
          ∀ i, ((R.cfg i).initPeers.ip, (R.cfg i).initPeers.port) = R.addr j) ∧
        ∀ idx < plan.k, ∃ S : Session (Fin nodes.length), S.id = idx + 1 ∧
          plan.clientServers[idx]? = some nodes[S.node false].1 ∧
          plan.clientServers[idx + plan.k]? = some nodes[S.node true].1 ∧
          ∀ party c, nodes[S.node party].2.readConfig stod cast p nodes[S.node party].1 =
              some c →
            c.fields.isServer = party ∧ ∃ seed, c.fields.seed = some seed ∧
              DAESocket.new (DAENode.new (R.cfg (S.node party))) c.fields.session seed =
                S.socket R party 0 := by
  obtain ⟨peer, rest, hstatic⟩ := List.exists_cons_of_ne_nil hplan.rest
  have hfirst : plan.staticNodes[0]? = some peer := by rw [hstatic]; rfl
  have hpeer : peer ∈ serverPort servers n :=
    ((hplan.drawn.mem_rest peer).mp (List.mem_of_getElem? hfirst)).1
  have hlen := hplan.nodes_length peer
  have hread := hplan.nodes_read hcast hd hx hy hle hpeer p
  refine ⟨deployedNodes d plan peer, deploy_eq d hplan.drawn.size hplan.ids_enough hfirst,
    hplan.nodes_hosts peer, deployedRoster hplan x y peer hbits hle (Nat.le_of_eq hlen), rfl,
    fun i => ?_, ?_, fun idx hidx => ?_⟩
  · refine ⟨_, hread i, rfl, fun random => ?_, ?_, ?_⟩
    · rw [meantNode_debug]
      rfl
    · rw [deployedRoster_id]
      exact hplan.idAt_mem (Nat.lt_of_lt_of_eq i.isLt hlen)
    · rw [deployedRoster_addr, hplan.nodes_get peer i, startNode_host]
  · -- the static node that all are told of was started too
    obtain ⟨j, hj, hhost⟩ :=
      List.mem_iff_getElem.mp ((hplan.nodes_hosts peer).mem_iff.mpr hpeer)
    rw [List.length_map] at hj
    rw [List.getElem_map] at hhost
    have hmember : (memberAt plan j).1 = peer := by
      have hnode := hplan.nodes_get peer ⟨j, hj⟩
      rw [← hhost]
      exact (startNode_host d peer _ _).symm.trans (congrArg Prod.fst hnode.symm)
    refine ⟨⟨j, hj⟩, by rw [hfirst]; exact congrArg some hhost.symm, fun i => ?_⟩
    rw [deployedRoster_addr, hmember, deployedRoster, meantNode_initPeers]
  · have hpair := hplan.memberAt_pair hidx
    have hlt : ∀ party : Bool, 2 * idx + party.toNat < (deployedNodes d plan peer).length :=
      fun party => by rw [hlen]; exact (hpair party).1
    have hhost : ∀ party : Bool,
        plan.clientServers[idx + if party then plan.k else 0]? =
          some ((deployedNodes d plan peer)[(pairSession hlt).node party]).1 := by
      intro party
      rw [(hpair party).2.1, hplan.nodes_get peer, startNode_host]
      rfl
    refine ⟨pairSession hlt, rfl, hhost false, hhost true, fun party c hc => ?_⟩
    have hmeant : c.fields =
        meant d x peer party idx (idAt plan (2 * idx + party.toNat)) := by
      rw [hread] at hc
      cases hc
      exact meantNode_app d x y peer _ (hpair party).2.2
    rw [hmeant]
    exact ⟨rfl, _, rfl, (pairSession hlt).socket_new _ (Roster.owns_new _ _)⟩

/-- One pair and a relay that both are told of. -/
def pairDeployment : Deployment where
  bits := 20
  p2pTimeBefore := 10
  p2pTimeAfter := 1
  msgRate := 500
  poolSize := 10
  shuffleP := ['0', '.', '8']
  delay := 30
  recheck := 20
  checkwait := 4
  printShuffle := true
  daemon := true
  cntInterval := 1

theorem pairDeployment_deployable : Deployable pairDeployment where
  bits := by decide
  p2pTimeBefore := by decide
  p2pTimeAfter := by decide
  msgRate := by decide
  poolSize := by decide
  shuffleP := isWord_of_all rfl rfl
  delay := by decide
  recheck := by decide
  checkwait := by decide
  cntInterval := by decide

/-- Of three ports of one host the last two are drawn. -/
def pairPlan : Plan where
  nodeIds := [5, 7, 9, 11]
  k := 1
  clientServers := [(['a'], 3102), (['a'], 3101)]
  staticNodes := [(['a'], 3100)]
  servers := [['a']]

theorem pairPlan_drawn : Plan.Drawn pairPlan (serverPort [['a']] 3) where
  sample := ⟨[(['a'], 3101), (['a'], 3102)], .swap .., .cons _ (List.Sublist.refl _)⟩
  size := rfl
  rest := List.nodup_singleton _
  mem_rest := by
    intro host
    show host ∈ [(['a'], 3100)] ↔ host ∈ [(['a'], 3100), (['a'], 3101), (['a'], 3102)] ∧
      host ∉ [(['a'], 3102), (['a'], 3101)]
    simp only [List.mem_cons, List.not_mem_nil, or_false]
    constructor
    · rintro rfl
      exact ⟨.inl rfl, by decide⟩
    · rintro ⟨rfl | rfl | rfl, hnot⟩
      · rfl
      · exact absurd (.inr rfl) hnot
      · exact absurd (.inl rfl) hnot
  servers := List.nodup_singleton _
  mem_servers := by
    intro server
    constructor
    · intro hserver
      exact ⟨(['a'], 3100), List.mem_singleton_self _, (List.mem_singleton.mp hserver).symm⟩
    · rintro ⟨host, hhost, rfl⟩
      rw [List.mem_singleton.mp hhost]
      exact List.mem_singleton_self _

theorem pairPlan_ready : Plan.Ready pairDeployment pairPlan [['a']] 3 where
  servers_nodup := List.nodup_singleton _
  words := by
    intro server hserver
    rw [List.mem_singleton.mp hserver]
    exact isWord_of_all rfl rfl
  ports := by decide
  drawn := pairPlan_drawn
  rest := List.cons_ne_nil _ _
  ids_nodup := by decide
  ids_lt := by decide
  enough := by decide

/-- Numbers read in decimal. -/
def decimalCast : LexicalCast Unit where
  int := stoi
  bool := fun word => some (word == ['1'])
  double := fun _ => some ()

theorem deployed_nodes_form_a_ring_three :
    ∃ nodes, pairDeployment.deploy pairPlan = some nodes ∧
      ∃ R : Roster (Fin nodes.length), R.m = 20 ∧
        ∃ j : Fin nodes.length, pairPlan.staticNodes[0]? = some nodes[j].1 ∧
          ∀ i, ((R.cfg i).initPeers.ip, (R.cfg i).initPeers.port) = R.addr j := by
  have hcast : ReadsNumbers decimalCast := ⟨fun n hn => stoi_toText hn, rfl⟩
  obtain ⟨nodes, hdeploy, -, R, hm, -, hpeer, -⟩ :=
    deployed_nodes_form_a_ring hcast pairDeployment_deployable
      (rfl : decimalCast.double pairDeployment.shuffleP = some ()) rfl (by decide) (by decide)
      pairPlan_ready ()
  exact ⟨nodes, hdeploy, R, hm, hpeer⟩

end Daenet.Proofs

