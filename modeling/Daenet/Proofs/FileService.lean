import Daenet.Lib.Runs
import Daenet.Proofs.Frames
import Daenet.Proofs.Md5
import Daenet.Proofs.SocketConfig
import Daenet.Ref.FileService
import Daenet.Ref.TcpSocket

/-!
# What is downloaded has been uploaded

A download asks one node who has the file and another one for the file, and in between,
and while the file is sent, anything can happen. Two invariants carry it through. A hash
that a node shares stays shared, and leads to a file with that hash: so whoever is
registered as an owner is one. And a connection over which a file is being sent has sent
exactly what lies before the position of the descriptor.

The second one takes three things that the code does not see to. A descriptor has one
position for all who read it, so no other thread may start on the same file meanwhile.
Anybody can register anything: registrations have to come from uploads. And a block of
1300 bytes is longer than any socket has room for: files have to be read in smaller
pieces, or be short.

The library has to lead from the number of a node to the node. Over TCP it does
(`tcpLibrary_sound`).
-/

namespace Daenet.Proofs

open Daenet.Lib Daenet.Ref

/-! ## The hash of a file -/

/-- The hash under which a content is shared. -/
def fileKey (content : List UInt8) : UInt128 :=
  .setMd5FromBuf (digest (if content.length % 64 = 55 then 64 else 0) content)

theorem hashFile_eq (chunks : List (List UInt8)) :
    FileNode.hashFile chunks = some (fileKey chunks.flatten) := by
  obtain ⟨md5, hrun, habs⟩ := addData_run new_absorbed chunks
  rw [List.nil_append] at habs
  obtain ⟨md5', hfinal, hstate⟩ := finalize_absorbed habs
  rw [FileNode.hashFile, hrun]
  simp only [Option.bind_eq_bind, Option.bind_some, hfinal]
  rw [MD5.toArray, hstate, compress_eq, new_state]
  rfl

/-! ## Blocks -/

/-- Blocks that follow one another from `position` on. -/
def BlocksInOrder : Nat → List FileContent → Prop
  | _, [] => True
  | position, b :: bs =>
      b.blockIdx = .ofNat position ∧ b.len = .ofNat b.data.length ∧
        BlocksInOrder (position + b.data.length) bs

/-- Blocks that make up a content. -/
def Sent (content : List UInt8) (blocks : List FileContent) : Prop :=
  blocks.flatMap FileContent.data = content ∧ BlocksInOrder 0 blocks

theorem inOrder_append {position : Nat} {bs : List FileContent} {b : FileContent}
    (hbs : BlocksInOrder position bs) (hlen : b.len = .ofNat b.data.length)
    (hidx : b.blockIdx = .ofNat (position + (bs.flatMap FileContent.data).length)) :
    BlocksInOrder position (bs ++ [b]) := by
  induction bs generalizing position with
  | nil => exact ⟨hidx, hlen, trivial⟩
  | cons c cs ih =>
      refine ⟨hbs.1, hbs.2.1, ih hbs.2.2 ?_⟩
      rw [hidx, List.flatMap_cons, List.length_append, Nat.add_assoc]

/-- One more block. -/
theorem Sent.append {content data : List UInt8} {bs : List FileContent} {b : FileContent}
    (h : Sent content bs) (hdata : b.data = data) (hlen : b.len = .ofNat data.length)
    (hidx : b.blockIdx = .ofNat content.length) : Sent (content ++ data) (bs ++ [b]) := by
  refine ⟨?_, inOrder_append h.2 (by rw [hdata]; exact hlen) ?_⟩
  · rw [List.flatMap_append, h.1, List.flatMap_singleton, hdata]
  · rw [h.1, Nat.zero_add]
    exact hidx

/-- One more block, read from a file where the last one ended. -/
theorem Sent.read {content data : List UInt8} {position limit : Nat} {bs : List FileContent}
    {b : FileContent} (h : Sent (content.take position) bs) (hle : position ≤ content.length)
    (hread : (content.drop position).take limit = data) (hdata : b.data = data)
    (hlen : b.len = .ofNat data.length) (hidx : b.blockIdx = .ofNat position) :
    Sent (content.take (position + data.length)) (bs ++ [b]) := by
  have hfront : data <+: content.drop position := by
    rw [← hread]
    exact List.take_prefix ..
  rw [List.take_add, ← List.prefix_iff_eq_take.mp hfront]
  refine h.append hdata hlen ?_
  rw [List.length_take, Nat.min_eq_left hle]
  exact hidx

/-! ## The invariant -/

section Invariant

variable {ι : Type} {library : SocketLibrary ι} {key : ι → UInt64}
  {P : ι → List UInt8 → Prop} {s : FileSystem ι}

/-- What a node shares under a hash has that hash, and satisfies `P`. -/
structure FilesOk (P : List UInt8 → Prop) (node : FileNode) : Prop where
  nextFd : 0 < node.nextFd
  shared : ∀ d, node.sharedFiles d ≠ 0 → node.sharedFiles d < node.nextFd ∧
    fileKey (node.files (node.sharedFiles d)).content = d ∧
    P (node.files (node.sharedFiles d)).content

/-- A connection of a download. -/
def TransferOk (P : List UInt8 → Prop) (node : FileNode) (t : Transfer ι) : Prop :=
  match t.phase with
  | .asked => t.message.messageType = .fetchFile ∧ t.message.idx = 0 ∧
      node.sharedFiles t.message.md5 ≠ 0 ∧ t.blocks = []
  | .sending fd currentIdx => fd ≠ 0 ∧ fd < node.nextFd ∧
      P (node.files fd).content ∧ fileKey (node.files fd).content = t.message.md5 ∧
      (node.files fd).position ≤ (node.files fd).content.length ∧
      currentIdx = .ofNat (node.files fd).position ∧
      Sent ((node.files fd).content.take (node.files fd).position) t.blocks
  | .closed _ => ∃ content, P content ∧ fileKey content = t.message.md5 ∧
      Sent content t.blocks
  | .overrun => False

/-- The number `owner` is one of a node that shares `d`. -/
def Owner (key : ι → UInt64) (s : FileSystem ι) (d : UInt128) (owner : UInt64) : Prop :=
  ∃ o, owner = key o ∧ (s.node o).sharedFiles d ≠ 0

/-- All registrations are of owners, downloads are what they should be, and no two
connections read one descriptor. -/
structure Sharing (key : ι → UInt64) (P : ι → List UInt8 → Prop) (s : FileSystem ι) :
    Prop where
  nodes : ∀ i, FilesOk (P i) (s.node i)
  registrations : ∀ x ∈ s.registrations, x.2.messageType = .registerFile ∧
    Owner key s x.2.md5 x.2.owner
  registered : ∀ i d, ((s.node i).registeredFiles d).fileLen ≠ 0 →
    Owner key s d ((s.node i).registeredFiles d).fileOwner
  transfers : ∀ (i : Nat) t, s.transfers[i]? = some t → t.download = true →
    TransferOk (P t.node) (s.node t.node) t
  honest : ∀ (i : Nat) t, s.transfers[i]? = some t → t.phase = .asked →
    t.message.messageType ≠ .registerFile
  lone : ∀ (i j : Nat) t u fd c c', s.transfers[i]? = some t → s.transfers[j]? = some u →
    t.node = u.node → t.phase = .sending fd c → u.phase = .sending fd c' → fd ≠ 0 → i = j

/-- A node after a step: what is shared stays shared, and of the open files at most the
position of one changes, that of `moved`. -/
structure Grown (moved : Nat → Prop) (node node' : FileNode) : Prop where
  nextFd : node.nextFd ≤ node'.nextFd
  shared : ∀ d, node.sharedFiles d ≠ 0 → node'.sharedFiles d ≠ 0
  content : ∀ fd < node.nextFd, (node'.files fd).content = (node.files fd).content
  position : ∀ fd < node.nextFd, ¬moved fd →
    (node'.files fd).position = (node.files fd).position

theorem Grown.refl (moved : Nat → Prop) (node : FileNode) : Grown moved node node :=
  ⟨Nat.le_refl _, fun _ h => h, fun _ _ => rfl, fun _ _ _ => rfl⟩

theorem TransferOk.grown {P : List UInt8 → Prop} {moved : Nat → Prop} {node node' : FileNode}
    {t : Transfer ι} (h : TransferOk P node t) (hgrown : Grown moved node node')
    (hmoved : ∀ fd c, t.phase = .sending fd c → fd ≠ 0 → ¬moved fd) :
    TransferOk P node' t := by
  unfold TransferOk at h ⊢
  split
  · next hphase =>
      rw [hphase] at h
      exact ⟨h.1, h.2.1, hgrown.shared _ h.2.2.1, h.2.2.2⟩
  · next fd c hphase =>
      rw [hphase] at h
      obtain ⟨hfd, hlt, hrest⟩ := h
      refine ⟨hfd, Nat.lt_of_lt_of_le hlt hgrown.nextFd, ?_⟩
      rw [hgrown.content fd hlt, hgrown.position fd hlt (hmoved fd c hphase hfd)]
      exact hrest
  · next fd hphase =>
      rw [hphase] at h
      exact h
  · next hphase =>
      rw [hphase] at h
      exact h

theorem Owner.grown {s' : FileSystem ι} {moved : ι → Nat → Prop} {d : UInt128}
    {owner : UInt64} (h : Owner key s d owner)
    (hgrown : ∀ i, Grown (moved i) (s.node i) (s'.node i)) : Owner key s' d owner := by
  obtain ⟨o, howner, hshared⟩ := h
  exact ⟨o, howner, (hgrown o).shared d hshared⟩

/-! ### The nodes -/

theorem share_grown (node : FileNode) (md5 : UInt128) (chunks : List (List UInt8))
    (hnext : 0 < node.nextFd) : Grown (fun _ => False) node (node.share md5 chunks) where
  nextFd := Nat.le_succ _
  shared := by
    intro d hd
    simp only [FileNode.share]
    by_cases heq : d = md5
    · rw [heq, Function.update_self]
      exact Nat.ne_of_gt hnext
    · rw [Function.update_of_ne heq]
      exact hd
  content := by
    intro fd hfd
    simp only [FileNode.share]
    rw [Function.update_of_ne (Nat.ne_of_lt hfd)]
  position := by
    intro fd hfd _
    simp only [FileNode.share]
    rw [Function.update_of_ne (Nat.ne_of_lt hfd)]

theorem share_ok {P : List UInt8 → Prop} {node : FileNode} (h : FilesOk P node)
    {chunks : List (List UInt8)} (hP : P chunks.flatten) :
    FilesOk P (node.share (fileKey chunks.flatten) chunks) where
  nextFd := Nat.succ_pos _
  shared := by
    intro d hd
    simp only [FileNode.share] at hd ⊢
    by_cases heq : d = fileKey chunks.flatten
    · rw [heq, Function.update_self, Function.update_self]
      exact ⟨Nat.lt_succ_self _, rfl, hP⟩
    · rw [Function.update_of_ne heq] at hd ⊢
      obtain ⟨hlt, hkey, hcontent⟩ := h.shared d hd
      rw [Function.update_of_ne (Nat.ne_of_lt hlt)]
      exact ⟨Nat.lt_succ_of_lt hlt, hkey, hcontent⟩

/-- Setting the position of one descriptor. -/
theorem position_grown (node : FileNode) (fd position : Nat) :
    Grown (· = fd) node { node with
      files := Function.update node.files fd { node.files fd with position } } where
  nextFd := Nat.le_refl _
  shared := fun _ h => h
  content := by
    intro fd' _
    dsimp only
    by_cases heq : fd' = fd
    · rw [heq, Function.update_self]
    · rw [Function.update_of_ne heq]
  position := by
    intro fd' _ hne
    dsimp only
    rw [Function.update_of_ne hne]

theorem position_ok {P : List UInt8 → Prop} {node : FileNode} (h : FilesOk P node)
    (fd position : Nat) : FilesOk P { node with
      files := Function.update node.files fd { node.files fd with position } } where
  nextFd := h.nextFd
  shared := by
    intro d hd
    obtain ⟨hlt, hkey, hcontent⟩ := h.shared d hd
    dsimp only
    by_cases heq : node.sharedFiles d = fd
    · rw [← heq, Function.update_self]
      exact ⟨hlt, hkey, hcontent⟩
    · rw [Function.update_of_ne heq]
      exact ⟨hlt, hkey, hcontent⟩

/-! ### The steps -/

/-- A connection that is added waits to be served. -/
theorem sharing_ask (h : Sharing key P s) {t : Transfer ι} (hasked : t.phase = .asked)
    (htype : t.message.messageType ≠ .registerFile)
    (hok : t.download = true → TransferOk (P t.node) (s.node t.node) t) :
    Sharing key P { s with transfers := s.transfers ++ [t] } := by
  have hget : ∀ (i : Nat) u, (s.transfers ++ [t])[i]? = some u →
      s.transfers[i]? = some u ∨ u = t := by
    intro i u hu
    rw [List.getElem?_append] at hu
    split at hu
    · exact .inl hu
    · exact .inr (List.mem_singleton.mp (List.mem_of_getElem? hu))
  refine ⟨h.nodes, h.registrations, h.registered, fun i u hu hdownload => ?_,
    fun i u hu hphase => ?_, fun i j u v fd c c' hu hv hnode hphase hphase' hfd => ?_⟩
  · rcases hget i u hu with hold | rfl
    · exact h.transfers i u hold hdownload
    · exact hok hdownload
  · rcases hget i u hu with hold | rfl
    · exact h.honest i u hold hphase
    · exact htype
  · rcases hget i u hu with hold | rfl
    · rcases hget j v hv with hold' | rfl
      · exact h.lone i j u v fd c c' hold hold' hnode hphase hphase' hfd
      · rw [hasked] at hphase'
        cases hphase'
    · rw [hasked] at hphase
      cases hphase

theorem sharing_download (hlibrary : library.Sound) (h : Sharing library.key P s)
    (md5 : UInt128) : Sharing library.key P (s.download library md5) := by
  simp only [FileSystem.download, FileNode.handle]
  split
  · exact h
  · next hlen =>
      obtain ⟨o, howner, hshared⟩ := h.registered _ md5 hlen
      refine sharing_ask h rfl (by simp) fun _ => ⟨rfl, rfl, ?_, rfl⟩
      rw [howner, hlibrary.reach_key]
      exact hshared

/-- No other connection reads the descriptor that the message at `index` leads to. -/
def Alone (s : FileSystem ι) (index : Nat) : Prop :=
  ∀ t, s.transfers[index]? = some t → t.phase = .asked → t.message.messageType = .fetchFile →
    ∀ u ∈ s.transfers, u.node = t.node → ∀ c,
      u.phase ≠ .sending ((s.node t.node).sharedFiles t.message.md5) c

theorem sharing_new (stdin : ι → OpenFile) : Sharing key P (FileSystem.new stdin) where
  nodes := fun _ => ⟨Nat.succ_pos 2, fun _ h => absurd rfl h⟩
  registrations := fun _ hx => absurd hx List.not_mem_nil
  registered := fun _ _ h => absurd rfl h
  transfers := fun _ _ h => by cases h
  honest := fun _ _ h => by cases h
  lone := fun _ _ _ _ _ _ _ h => by cases h

variable [DecidableEq ι]

theorem setNode_self (s : FileSystem ι) (i : ι) (node : FileNode) :
    (s.setNode i node).node i = node := Function.update_self ..

theorem setNode_grown {moved : Nat → Prop} {i : ι} {node : FileNode}
    (h : Grown moved (s.node i) node) (j : ι) :
    Grown (fun fd => j = i ∧ moved fd) (s.node j) ((s.setNode i node).node j) := by
  by_cases hj : j = i
  · subst hj
    rw [setNode_self]
    exact ⟨h.nextFd, h.shared, h.content,
      fun fd hfd hmoved => h.position fd hfd fun hm => hmoved ⟨rfl, hm⟩⟩
  · have hsame : (s.setNode i node).node j = s.node j := Function.update_of_ne hj ..
    rw [hsame]
    exact Grown.refl _ _

theorem setNode_ok (h : ∀ i, FilesOk (P i) (s.node i)) {i : ι} {node : FileNode}
    (hnode : FilesOk (P i) node) (j : ι) : FilesOk (P j) ((s.setNode i node).node j) := by
  by_cases hj : j = i
  · subst hj
    rw [setNode_self]
    exact hnode
  · have hsame : (s.setNode i node).node j = s.node j := Function.update_of_ne hj ..
    rw [hsame]
    exact h j

theorem setNode_registered {i : ι} {node : FileNode}
    (h : node.registeredFiles = (s.node i).registeredFiles) (j : ι) :
    ((s.setNode i node).node j).registeredFiles = (s.node j).registeredFiles := by
  by_cases hj : j = i
  · subst hj
    rw [setNode_self, h]
  · have hsame : (s.setNode i node).node j = s.node j := Function.update_of_ne hj ..
    rw [hsame]

theorem sharing_upload (h : Sharing library.key P s) {i : ι} {chunks : List (List UInt8)}
    (hP : P i chunks.flatten) : Sharing library.key P (s.upload library i chunks) := by
  have hgrown := setNode_grown (s := s)
    (share_grown (s.node i) (fileKey chunks.flatten) chunks (h.nodes i).nextFd)
  rw [FileSystem.upload, hashFile_eq]
  refine ⟨setNode_ok h.nodes (share_ok (h.nodes i) hP), ?_, ?_, ?_, h.honest, h.lone⟩
  · intro x hx
    rcases List.mem_append.mp hx with hold | hnew
    · obtain ⟨htype, howner⟩ := h.registrations x hold
      exact ⟨htype, howner.grown hgrown⟩
    · rw [List.mem_singleton.mp hnew]
      refine ⟨rfl, i, rfl, ?_⟩
      change ((s.setNode i _).node i).sharedFiles (fileKey chunks.flatten) ≠ 0
      rw [setNode_self]
      simp only [FileNode.share, Function.update_self]
      exact Nat.ne_of_gt (h.nodes i).nextFd
  · intro j d hd
    have hsame : ((s.setNode i ((s.node i).share (fileKey chunks.flatten) chunks)).node
        j).registeredFiles = (s.node j).registeredFiles := by
      apply setNode_registered
      rfl
    change (((s.setNode i _).node j).registeredFiles d).fileLen ≠ 0 at hd
    change Owner library.key _ d (((s.setNode i _).node j).registeredFiles d).fileOwner
    rw [hsame] at hd ⊢
    exact (h.registered j d hd).grown hgrown
  · intro j t hj hdownload
    exact (h.transfers j t hj hdownload).grown (hgrown t.node) fun _ _ _ _ hm => hm.2

theorem sharing_register (h : Sharing key P s) (index : Nat) :
    Sharing key P (s.register index) := by
  rw [FileSystem.register]
  split
  · exact h
  · next i message hget =>
      obtain ⟨htype, howner⟩ := h.registrations _ (List.mem_of_getElem? hget)
      have hhandle : ((s.node i).handle message).1 =
          { s.node i with
            registeredFiles := Function.update (s.node i).registeredFiles message.md5
              ⟨message.len, message.owner⟩ } := by
        rw [FileNode.handle, show message.messageType = .registerFile from htype]
      rw [hhandle]
      have hsame : Grown (fun _ => False) (s.node i) { s.node i with
            registeredFiles := Function.update (s.node i).registeredFiles message.md5
              ⟨message.len, message.owner⟩ } :=
        ⟨Nat.le_refl _, fun _ hd => hd, fun _ _ => rfl, fun _ _ _ => rfl⟩
      have hgrown := setNode_grown hsame
      refine ⟨setNode_ok h.nodes ⟨(h.nodes i).nextFd, (h.nodes i).shared⟩, ?_, ?_, ?_, h.honest,
        h.lone⟩
      · intro x hx
        obtain ⟨htype', howner'⟩ := h.registrations x (List.mem_of_mem_eraseIdx hx)
        exact ⟨htype', howner'.grown hgrown⟩
      · intro j d hd
        by_cases hj : j = i
        · subst hj
          change (((s.setNode j _).node j).registeredFiles d).fileLen ≠ 0 at hd
          change Owner key _ d (((s.setNode j _).node j).registeredFiles d).fileOwner
          rw [setNode_self] at hd ⊢
          by_cases hmd5 : d = message.md5
          · subst hmd5
            dsimp only
            rw [Function.update_self]
            exact howner.grown hgrown
          · dsimp only at hd ⊢
            rw [Function.update_of_ne hmd5] at hd ⊢
            exact (h.registered j d hd).grown hgrown
        · have hother : ∀ node, (s.setNode i node).node j = s.node j :=
            fun _ => Function.update_of_ne hj ..
          change (((s.setNode i _).node j).registeredFiles d).fileLen ≠ 0 at hd
          change Owner key _ d (((s.setNode i _).node j).registeredFiles d).fileOwner
          rw [hother] at hd ⊢
          exact (h.registered j d hd).grown hgrown
      · intro j t hj hdownload
        exact (h.transfers j t hj hdownload).grown (hgrown t.node) fun _ _ _ _ hm => hm.2

/-- A connection that has moved on, at a node where at most the position of its
descriptor has changed. -/
theorem sharing_move (h : Sharing key P s) {index fd : Nat} {t : Transfer ι}
    {node : FileNode} {phase : Sending} {blocks : List FileContent}
    (hgrown : Grown (· = fd) (s.node t.node) node) (hnode : FilesOk (P t.node) node)
    (hregistered : node.registeredFiles = (s.node t.node).registeredFiles)
    (hothers : ∀ (i : Nat) u c, i ≠ index → s.transfers[i]? = some u → u.node = t.node →
      u.phase = .sending fd c → fd = 0)
    (hphase : phase ≠ .asked) (hsending : ∀ fd' c, phase = .sending fd' c → fd' = fd)
    (hok : t.download = true → TransferOk (P t.node) node { t with phase, blocks }) :
    Sharing key P { s.setNode t.node node with
      transfers := s.transfers.set index { t with phase, blocks } } := by
  have hgrown' := setNode_grown hgrown
  have hset : ∀ (i : Nat) u, (s.transfers.set index { t with phase, blocks })[i]? = some u →
      i ≠ index ∧ s.transfers[i]? = some u ∨ i = index ∧ u = { t with phase, blocks } := by
    intro i u hu
    rw [List.getElem?_set] at hu
    split at hu
    · next heq =>
        split at hu
        · exact .inr ⟨heq.symm, (Option.some.inj hu).symm⟩
        · cases hu
    · next hne => exact .inl ⟨Ne.symm hne, hu⟩
  refine ⟨setNode_ok h.nodes hnode, fun x hx => ?_, fun j d hd => ?_,
    fun i u hu hdownload => ?_, fun i u hu hasked => ?_,
    fun i j u v fd' c c' hu hv huv hu' hv' hfd => ?_⟩
  · obtain ⟨htype, howner⟩ := h.registrations x hx
    exact ⟨htype, howner.grown hgrown'⟩
  · have hsame := setNode_registered hregistered j
    change (((s.setNode t.node node).node j).registeredFiles d).fileLen ≠ 0 at hd
    change Owner key _ d (((s.setNode t.node node).node j).registeredFiles d).fileOwner
    rw [hsame] at hd ⊢
    exact (h.registered j d hd).grown hgrown'
  · rcases hset i u hu with ⟨hne, hold⟩ | ⟨-, rfl⟩
    · refine (h.transfers i u hold hdownload).grown (hgrown' u.node) ?_
      rintro fd' c hu' hfd ⟨hnode', rfl⟩
      exact hfd (hothers i u c hne hold hnode' hu')
    · change TransferOk _ ((s.setNode t.node node).node t.node) _
      rw [setNode_self]
      exact hok hdownload
  · rcases hset i u hu with ⟨-, hold⟩ | ⟨-, rfl⟩
    · exact h.honest i u hold hasked
    · exact absurd hasked hphase
  · rcases hset i u hu with ⟨hne, hold⟩ | ⟨hi, rfl⟩
    · rcases hset j v hv with ⟨-, hold'⟩ | ⟨hj, rfl⟩
      · exact h.lone i j u v fd' c c' hold hold' huv hu' hv' hfd
      · have heq := hsending fd' c' hv'
        subst heq
        exact absurd (hothers i u c hne hold huv hu') hfd
    · rcases hset j v hv with ⟨hne', hold'⟩ | ⟨hj, rfl⟩
      · have heq := hsending fd' c hu'
        subst heq
        exact absurd (hothers j v c' hne' hold' huv.symm hv') hfd
      · rw [hi, hj]

theorem lseek_eq (node : FileNode) (fd : Nat) (idx : UInt64) : ∃ position,
    node.lseek fd idx = { node with
      files := Function.update node.files fd { node.files fd with position } } ∧
    (idx = 0 → position = 0) := by
  rw [FileNode.lseek]
  split
  · refine ⟨idx.toNat, rfl, fun h => ?_⟩
    rw [h]
    rfl
  · next hlarge =>
      refine ⟨(node.files fd).position, ?_, fun h => ?_⟩
      · rw [Function.update_eq_self]
      · rw [h] at hlarge
        exact absurd (by decide) hlarge

/-- A message that is neither a registration nor asks for a file changes nothing. -/
theorem handle_other (node : FileNode) {m : RegisterFetchFile}
    (hregister : m.messageType ≠ .registerFile) (hfetch : m.messageType ≠ .fetchFile) :
    node.handle m = (node, .receive) ∨ ∃ m', node.handle m = (node, .reply m') := by
  cases htype : m.messageType with
  | registerFile => exact absurd htype hregister
  | fetchFile => exact absurd htype hfetch
  | registerFileReply => exact .inl (by rw [FileNode.handle, htype])
  | fetchFileLocReply => exact .inl (by rw [FileNode.handle, htype])
  | fileContent => exact .inl (by rw [FileNode.handle, htype])
  | fetchFileLoc => exact .inr ⟨_, by rw [FileNode.handle, htype]⟩

theorem sharing_serve (h : Sharing key P s) {index : Nat} (halone : Alone s index) :
    Sharing key P (s.serve index) := by
  rw [FileSystem.serve]
  split
  · exact h
  · next t hget =>
      split
      · next hasked =>
          by_cases htype : t.message.messageType = .fetchFile
          · obtain ⟨position, hlseek, hzero⟩ := lseek_eq (s.node t.node)
              ((s.node t.node).sharedFiles t.message.md5) t.message.idx
            simp only [FileNode.handle, htype, hlseek]
            refine sharing_move h (position_grown _ _ position)
              (position_ok (h.nodes t.node) _ position) rfl ?_ (by simp) ?_ ?_
            · intro i u c _ hu hnode hphase
              exact absurd hphase (halone t hget hasked htype u (List.mem_of_getElem? hu) hnode c)
            · intro fd' c heq
              cases heq
              rfl
            · intro hdownload
              have hok := h.transfers index t hget hdownload
              simp only [TransferOk, hasked] at hok
              obtain ⟨-, hidx, hshared, hblocks⟩ := hok
              obtain ⟨hlt, hkey, hcontent⟩ := (h.nodes t.node).shared _ hshared
              simp only [TransferOk, Function.update_self]
              rw [hzero hidx, hblocks, hidx]
              exact ⟨hshared, hlt, hcontent, hkey, Nat.zero_le _, rfl, rfl, trivial⟩
          · have hclosed : Sharing key P { s.setNode t.node (s.node t.node) with
                transfers := s.transfers.set index { t with phase := .closed 0 } } := by
              refine sharing_move h (Grown.refl (· = 0) _) (h.nodes t.node) rfl
                (fun _ _ _ _ _ _ _ => rfl) (by simp) (fun fd' c heq => by cases heq) ?_
              intro hdownload
              have hok := h.transfers index t hget hdownload
              simp only [TransferOk, hasked] at hok
              exact absurd hok.1 htype
            rcases handle_other (s.node t.node) (h.honest index t hget hasked) htype with
              hhandle | ⟨m', hhandle⟩
            · rw [hhandle]
              exact hclosed
            · rw [hhandle]
              exact hclosed
      · exact h

/-- There is room for the block that the thread at `index` reads next. -/
def RoomFor (library : SocketLibrary ι) (s : FileSystem ι) (index limit : Nat) : Prop :=
  ∀ t fd currentIdx, s.transfers[index]? = some t → t.phase = .sending fd currentIdx →
    sizeofFileContent + ((s.node t.node).read fd (min 1300 (limit + 1))).2.length ≤
      library.room

theorem sharing_send (h : Sharing key P s) {index limit : Nat}
    (hroom : RoomFor library s index limit) : Sharing key P (s.send library index limit) := by
  rw [FileSystem.send]
  split
  · exact h
  · next t hget =>
      split
      · next fd currentIdx hphase =>
          have hfits := hroom t fd currentIdx hget hphase
          have hothers : ∀ (i : Nat) u c, i ≠ index → s.transfers[i]? = some u →
              u.node = t.node → u.phase = .sending fd c → fd = 0 := by
            intro i u c hne hu hnode hu'
            by_contra hfd
            exact hne (h.lone i index u t fd c currentIdx hu hget hnode hu' hphase hfd)
          generalize hread : (s.node t.node).read fd (min 1300 (limit + 1)) = r at hfits ⊢
          obtain ⟨node, data⟩ := r
          obtain ⟨rfl, hdata⟩ := Prod.mk.inj hread
          dsimp only at hfits
          have hok : t.download = true → fd ≠ 0 ∧ fd < (s.node t.node).nextFd ∧
              P t.node ((s.node t.node).files fd).content ∧
              fileKey ((s.node t.node).files fd).content = t.message.md5 ∧
              ((s.node t.node).files fd).position ≤
                ((s.node t.node).files fd).content.length ∧
              currentIdx = .ofNat ((s.node t.node).files fd).position ∧
              Sent (((s.node t.node).files fd).content.take
                ((s.node t.node).files fd).position) t.blocks := by
            intro hdownload
            have hok := h.transfers index t hget hdownload
            simp only [TransferOk, hphase] at hok
            exact hok
          rw [hdata]
          have hgrown := position_grown (s.node t.node) fd
            (((s.node t.node).files fd).position + data.length)
          have hnode := position_ok (h.nodes t.node) fd
            (((s.node t.node).files fd).position + data.length)
          generalize hfile : (s.node t.node).files fd = file at hdata hok hgrown hnode ⊢
          have hlength : data.length = min (min 1300 (limit + 1))
              (file.content.length - file.position) := by
            rw [← hdata, List.length_take, List.length_drop]
          dsimp only
          split
          · next hempty =>
              refine sharing_move h hgrown hnode rfl hothers (by simp)
                (fun fd' c heq => by cases heq) fun hdownload => ?_
              obtain ⟨-, -, hP, hkey, hle, -, hsent⟩ := hok hdownload
              refine ⟨file.content, hP, hkey, ?_⟩
              rw [List.take_of_length_le (by omega)] at hsent
              exact hsent
          · -- there is room for the block
            rw [if_neg (by omega)]
            · refine sharing_move h hgrown hnode rfl hothers (by simp) ?_ fun hdownload => ?_
              · intro fd' c heq
                cases heq
                rfl
              · obtain ⟨hfd, hlt, hP, hkey, hle, hidx, hsent⟩ := hok hdownload
                simp only [TransferOk, Function.update_self]
                refine ⟨hfd, hlt, hP, hkey, by omega, ?_, ?_⟩
                · rw [hidx, UInt64.ofNat_add]
                · exact hsent.read hle hdata rfl rfl hidx
      · exact h

/-! ## Runs -/

/-- A step that does not get in the way: no message of a peer is a registration, no
thread starts to send a file that is being sent from the same descriptor, and no block is
longer than there is room for. -/
def UndisturbedFiles (library : SocketLibrary ι) (s : FileSystem ι) :
    FileSystem.Act ι → Prop
  | .request _ message => message.messageType ≠ .registerFile
  | .serve index => Alone s index
  | .send index limit => RoomFor library s index limit
  | _ => True

theorem sharing_step (hlibrary : library.Sound) (h : Sharing library.key P s)
    {a : FileSystem.Act ι} (ha : UndisturbedFiles library s a)
    (hP : ∀ i chunks, a = .upload i chunks → P i chunks.flatten) :
    Sharing library.key P (s.step library a) := by
  cases a with
  | upload i chunks => exact sharing_upload h (hP i chunks rfl)
  | register index => exact sharing_register h index
  | download md5 => exact sharing_download hlibrary h md5
  | request i message => exact sharing_ask h rfl ha fun hdownload => by cases hdownload
  | serve index => exact sharing_serve h ha
  | send index limit => exact sharing_send h ha

/-- With a library that leads back to the numbers it gives out, in every run in which no
file is fetched twice at a time from one descriptor, registrations come from uploads and
`send` has room for every block: over the connection of a download that has ended, there
was sent, block by block and in order, a file that the node at its other end has
uploaded, and with the hash that was asked for. -/
theorem downloads_are_uploads (hlibrary : library.Sound) (stdin : ι → OpenFile)
    (acts : List (FileSystem.Act ι))
    (hacts : Always (FileSystem.step library) (UndisturbedFiles library)
      (FileSystem.new stdin) acts) :
    ∀ t ∈ (acts.foldl (FileSystem.step library) (FileSystem.new stdin)).transfers,
      t.download = true → ∀ fd, t.phase = .closed fd →
        ∃ chunks, .upload t.node chunks ∈ acts ∧ fileKey chunks.flatten = t.message.md5 ∧
          Sent chunks.flatten t.blocks := by
  have hrun : Sharing library.key (fun i content => ∃ chunks, .upload i chunks ∈ acts ∧
      chunks.flatten = content)
      (acts.foldl (FileSystem.step library) (FileSystem.new stdin)) := by
    refine Always.foldl (fun s a hs ha => ?_) (sharing_new stdin)
      (hacts.and_mem fun a ha => ha)
    refine sharing_step hlibrary hs ha.1 fun i chunks heq => ⟨chunks, ?_, rfl⟩
    rw [← heq]
    exact ha.2
  intro t ht hdownload fd hphase
  obtain ⟨i, hi⟩ := List.mem_iff_getElem?.mp ht
  have hok := hrun.transfers i t hi hdownload
  simp only [TransferOk, hphase] at hok
  obtain ⟨content, ⟨chunks, hmem, rfl⟩, hkey, hsent⟩ := hok
  exact ⟨chunks, hmem, hkey, hsent⟩

end Invariant

/-! ## Over TCP -/

section Tcp

variable {text : List Char}

/-- Whom `connect` leads to stands in the file. -/
theorem connect_mem {m : TcpMetadata} {id : List Char} {h : TcpHost}
    (hconnect : m.connect id = .host h) : h ∈ m.relays := by
  unfold TcpMetadata.connect at hconnect
  split at hconnect
  · cases hconnect
  · split at hconnect
    · cases hconnect
    · next hget =>
        cases hconnect
        exact List.mem_of_getElem? hget

/-- The TCP library, with the nodes that stand in the file that it reads. A number that
no line has does not come up. -/
def tcpLibrary (text : List Char) (hlines : records readHost text ≠ []) :
    SocketLibrary {h : TcpHost // h ∈ records readHost text} where
  key h := .ofNat
    ((stoi (TcpMetadata.initializeRelay true h.val.ip h.val.port text).1).getD 0).toNat
  reach number :=
    match hconnect : TcpMetadata.connect { relays := records readHost text }
        (toText number.toNat) with
    | .host h => ⟨h, connect_mem hconnect⟩
    | _ => ⟨(records readHost text).head hlines, List.head_mem hlines⟩
  idRange := .ofNat (records readHost text).length
  room := maxMtu - sizeofWord - npubBytes - aBytes

theorem tcpLibrary_sound (hlines : records readHost text ≠ [])
    (hlen : (records readHost text).length ≤ 2 ^ 31) : (tcpLibrary text hlines).Sound where
  reach_key := by
    rintro ⟨h, hmem⟩
    rcases initializeRelay_id h.ip h.port text with ⟨k, hlast, hid⟩ | ⟨hnot, _⟩
    · have hk := hlast.lt
      have hkey : (tcpLibrary text hlines).key ⟨h, hmem⟩ = .ofNat k := by
        simp only [tcpLibrary]
        rw [hid, stoi_toText (by omega)]
        rfl
      have hconnect := connect_toText (m := { relays := records readHost text }) (by omega)
        hlast.host
      have hnumber : (UInt64.ofNat k).toNat = k := by
        rw [UInt64.toNat_ofNat', Nat.mod_eq_of_lt (by omega)]
      rw [hkey]
      simp only [tcpLibrary]
      rw [← hnumber] at hconnect
      split
      · next h' hconnect' =>
          rw [hconnect] at hconnect'
          cases hconnect'
          rfl
      · next hno => exact absurd hconnect (hno _)
    · exact absurd hmem hnot
  room := show 48 ≤ maxMtu - sizeofWord - npubBytes - aBytes from by decide

/-- The room that `TcpSocket::send` has. -/
theorem tcpLibrary_room (hlines : records readHost text ≠ []) {A : Aead} {key : List UInt8}
    (hA : A.Lawful key) (nonce : Nonce) (buf : List UInt8) :
    (TcpSocket.send A key nonce buf).isSome ↔ buf.length ≤ (tcpLibrary text hlines).room := by
  have hframe : (frameOf (A.seal key nonce buf)).length ≤ maxMtu ↔
      buf.length ≤ maxMtu - sizeofWord - npubBytes - aBytes := by
    rw [frameOf_length, seal_length hA]
    simp only [maxMtu, sizeofWord, npubBytes, aBytes]
    omega
  simp only [TcpSocket.send, tcpLibrary]
  rw [← hframe]
  split
  · next hfits => exact ⟨fun _ => hfits, fun _ => rfl⟩
  · next hlong => exact ⟨fun h => absurd h Bool.false_ne_true, fun hfits => absurd hfits hlong⟩

end Tcp

/-- A file of three bytes that a node uploads and downloads, alone. -/
def threeBytes {ι : Type} (i : ι) : List (FileSystem.Act ι) :=
  [.upload i [[1], [2, 3]], .register 0, .download (fileKey [1, 2, 3]), .serve 0, .send 0 1,
    .send 0 5, .send 0 5]

section ThreeBytes

variable {ι : Type} {library : SocketLibrary ι}

/-- Few bytes are read at a time. -/
theorem roomFor_of_limit (s : FileSystem ι) (index : Nat) {limit : Nat}
    (h : sizeofFileContent + (limit + 1) ≤ library.room) : RoomFor library s index limit := by
  intro t fd currentIdx _ _
  have hlength : ((s.node t.node).read fd (min 1300 (limit + 1))).2.length ≤ limit + 1 :=
    Nat.le_trans (List.length_take_le ..) (Nat.min_le_right ..)
  omega

theorem download_asks {s : FileSystem ι} (h : s.transfers = []) (md5 : UInt128) :
    ∀ u ∈ (s.download library md5).transfers, u.phase = .asked := by
  intro u hu
  simp only [FileSystem.download, FileNode.handle] at hu
  split at hu
  · rw [h] at hu
    cases hu
  · rw [h, List.nil_append] at hu
    rw [List.mem_singleton.mp hu]

variable [DecidableEq ι]

theorem upload_transfers (s : FileSystem ι) (i : ι) (chunks : List (List UInt8)) :
    (s.upload library i chunks).transfers = s.transfers := by
  rw [FileSystem.upload, hashFile_eq]
  rfl

theorem register_transfers (s : FileSystem ι) (index : Nat) :
    (s.register index).transfers = s.transfers := by
  rw [FileSystem.register]
  split
  · rfl
  · rfl

theorem threeBytes_undisturbed (hroom : sizeofRegisterFetchFile ≤ library.room)
    (stdin : ι → OpenFile) (i : ι) :
    Always (FileSystem.step library) (UndisturbedFiles library) (FileSystem.new stdin)
      (threeBytes i) := by
  have hsmall : sizeofFileContent + (5 + 1) ≤ library.room := Nat.le_trans (by decide) hroom
  have hsmaller : sizeofFileContent + (1 + 1) ≤ library.room := Nat.le_trans (by decide) hroom
  refine ⟨trivial, trivial, trivial, ?_, roomFor_of_limit _ 0 hsmaller,
    roomFor_of_limit _ 0 hsmall, roomFor_of_limit _ 0 hsmall, trivial⟩
  intro t _ _ _ u hu _ c hphase
  have hnone : (((FileSystem.new stdin).upload library i [[1], [2, 3]]).register 0).transfers =
      [] := by
    rw [register_transfers, upload_transfers]
    rfl
  have hasked := download_asks hnone _ u hu
  rw [hasked] at hphase
  cases hphase

end ThreeBytes

/-- One line, in the file over TCP. -/
def oneServer : List (List Char × Nat) := [(['a'], 3100)]

theorem oneServer_lines : records readHost (hostConfig oneServer) = [⟨['a'], 3100⟩] := by
  refine records_hostConfig fun server hserver => ?_
  rw [List.mem_singleton.mp hserver]
  exact ⟨isWord_of_all rfl rfl, by decide⟩

theorem downloads_are_uploads_threeBytes :
    let hlines : records readHost (hostConfig oneServer) ≠ [] := by
      rw [oneServer_lines]
      exact List.cons_ne_nil _ _
    let node : {h : TcpHost // h ∈ records readHost (hostConfig oneServer)} :=
      ⟨⟨['a'], 3100⟩, by rw [oneServer_lines]; exact List.mem_singleton_self _⟩
    let step := FileSystem.step (tcpLibrary (hostConfig oneServer) hlines)
    ∀ t ∈ ((threeBytes node).foldl step (FileSystem.new fun _ => ⟨[], 0⟩)).transfers,
      t.download = true → ∀ fd, t.phase = .closed fd →
        ∃ chunks, .upload t.node chunks ∈ threeBytes node ∧
          fileKey chunks.flatten = t.message.md5 ∧ Sent chunks.flatten t.blocks := by
  intro hlines node step
  have hsound := tcpLibrary_sound hlines (by rw [oneServer_lines]; decide)
  exact downloads_are_uploads hsound _ (threeBytes node)
    (threeBytes_undisturbed hsound.room _ node)

end Daenet.Proofs
