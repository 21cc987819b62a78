import Mathlib.Algebra.BigOperators.Group.List.Basic
import Mathlib.Algebra.Group.Nat.Even
import Mathlib.Data.Int.Order.Basic

/-! The network audio stream of the remote bridge (`kaine/remote/bridge.py`), from `start` to the
last chunk that is fed. Which runs of the network audio stream keep the samples whole. -/
namespace Kaine.Remote

variable {B : Type}

structure AudioSettings where
  framesPerBlock : ℕ
  maxBufferBytes : ℤ := 0
  framesPerBlock_pos : 0 < framesPerBlock

namespace AudioSettings

/-- Samples are 16-bit. -/
def blockBytes (settings : AudioSettings) : ℕ := settings.framesPerBlock * 2

/-- `_max_buffer_bytes`: zero is no cap. -/
def cap (settings : AudioSettings) : ℕ :=
  if 0 < settings.maxBufferBytes then max settings.maxBufferBytes.toNat settings.blockBytes else 0

end AudioSettings

/-- What leaves the buffer: bytes that the cap trims, or a block for the callback. -/
inductive Piece (B : Type) where
  | trimmed (bytes : List B)
  | block (bytes : List B)
  deriving DecidableEq

def Piece.bytes : Piece B → List B
  | .trimmed bytes => bytes
  | .block bytes => bytes

structure AudioStream (B : Type) where
  buffer : List B := []
  running : Bool := false

namespace AudioStream

def start (stream : AudioStream B) : AudioStream B := { stream with running := true }

/-- The blocks that the loop takes off a buffer, and the rest; each turn takes one, so `fuel` need
not exceed the length. -/
def takeBlocks (blockBytes : ℕ) : (fuel : ℕ) → List B → List (List B) × List B
  | 0, buffer => ([], buffer)
  | fuel + 1, buffer =>
    if blockBytes ≤ buffer.length then
      let rest := takeBlocks blockBytes fuel (buffer.drop blockBytes)
      (buffer.take blockBytes :: rest.1, rest.2)
    else ([], buffer)

/-- The bytes over the cap when a chunk has come in. -/
def overflow (settings : AudioSettings) (stream : AudioStream B) (chunk : List B) : ℕ :=
  if settings.cap ≠ 0 ∧ settings.cap < (stream.buffer ++ chunk).length then
    (stream.buffer ++ chunk).length - settings.cap
  else 0

def feed (settings : AudioSettings) (stream : AudioStream B) (chunk : List B) :
    List (Piece B) × AudioStream B :=
  if !stream.running || chunk.isEmpty then ([], stream)
  else
    let excess := stream.overflow settings chunk
    let buffer := (stream.buffer ++ chunk).drop excess
    let blocks := takeBlocks settings.blockBytes buffer.length buffer
    ((if excess = 0 then [] else [.trimmed ((stream.buffer ++ chunk).take excess)]) ++
      blocks.1.map .block, { stream with buffer := blocks.2 })

def feedAll (settings : AudioSettings) (stream : AudioStream B) :
    List (List B) → List (Piece B) × AudioStream B
  | [] => ([], stream)
  | chunk :: chunks =>
    let first := stream.feed settings chunk
    let rest := first.2.feedAll settings chunks
    (first.1 ++ rest.1, rest.2)

end AudioStream

open AudioStream

variable {settings : AudioSettings} {stream : AudioStream B} {chunk : List B}
  {chunks : List (List B)} {pieces pieces' : List (Piece B)} {n fuel pos : ℕ} {buffer : List B}

theorem takeBlocks_flatten (n fuel : ℕ) (buffer : List B) :
    (takeBlocks n fuel buffer).1.flatten ++ (takeBlocks n fuel buffer).2 = buffer := by
  induction fuel generalizing buffer with
  | zero => rfl
  | succ fuel ih =>
    rw [takeBlocks]
    split_ifs with hn
    · rw [List.flatten_cons, List.append_assoc, ih, List.take_append_drop]
    · rfl

theorem takeBlocks_size (n fuel : ℕ) (buffer : List B) :
    ∀ bs ∈ (takeBlocks n fuel buffer).1, bs.length = n := by
  induction fuel generalizing buffer with
  | zero => exact fun bs hbs => (by cases hbs)
  | succ fuel ih =>
    rw [takeBlocks]
    split_ifs with hn
    · intro bs hbs
      rcases List.mem_cons.mp hbs with rfl | hbs
      · exact List.length_take_of_le hn
      · exact ih _ bs hbs
    · exact fun bs hbs => (by cases hbs)

/-- The loop runs until less than a block is left. -/
theorem takeBlocks_rest (hn : 0 < n) (hfuel : buffer.length ≤ fuel) :
    (takeBlocks n fuel buffer).2.length < n := by
  induction fuel generalizing buffer with
  | zero =>
    change buffer.length < n
    omega
  | succ fuel ih =>
    rw [takeBlocks]
    split_ifs with hlong
    · refine ih ?_
      rw [List.length_drop]
      omega
    · exact not_le.mp hlong

theorem takeBlocks_ne_nil (hlong : n ≤ buffer.length) (hfuel : 0 < fuel) :
    ∃ bs rest, (takeBlocks n fuel buffer).1 = bs :: rest := by
  obtain ⟨fuel, rfl⟩ := Nat.exists_eq_succ_of_ne_zero hfuel.ne'
  rw [takeBlocks, if_pos hlong]
  exact ⟨_, _, rfl⟩

/-- The bytes of some pieces in a row. -/
def bytesOf (pieces : List (Piece B)) : List B := pieces.flatMap Piece.bytes

theorem bytesOf_append (pieces pieces' : List (Piece B)) :
    bytesOf (pieces ++ pieces') = bytesOf pieces ++ bytesOf pieces' :=
  List.flatMap_append

theorem bytesOf_blocks (blocks : List (List B)) : bytesOf (blocks.map .block) = blocks.flatten := by
  rw [bytesOf, List.flatMap_map]
  exact List.flatMap_id

/-- The blocks among some pieces start at even places, counted from `pos`. -/
def AlignedFrom : (pos : ℕ) → List (Piece B) → Prop
  | _, [] => True
  | pos, .trimmed bytes :: pieces => AlignedFrom (pos + bytes.length) pieces
  | pos, .block bytes :: pieces => Even pos ∧ AlignedFrom (pos + bytes.length) pieces

theorem alignedFrom_append (pos : ℕ) (pieces pieces' : List (Piece B)) :
    AlignedFrom pos (pieces ++ pieces') ↔
      AlignedFrom pos pieces ∧ AlignedFrom (pos + (bytesOf pieces).length) pieces' := by
  induction pieces generalizing pos with
  | nil => exact (true_and _).symm.to_iff
  | cons piece pieces ih =>
    have hbytes : (bytesOf (piece :: pieces)).length =
      piece.bytes.length + (bytesOf pieces).length := by
      rw [bytesOf, List.flatMap_cons, List.length_append]
      rfl
    rw [List.cons_append, hbytes, ← Nat.add_assoc]
    cases piece with
    | trimmed bytes => exact ih (pos + bytes.length)
    | block bytes =>
      have hrest := ih (pos + bytes.length)
      exact ⟨fun h => ⟨⟨h.1, (hrest.mp h.2).1⟩, (hrest.mp h.2).2⟩,
        fun h => ⟨h.1.1, hrest.mpr ⟨h.1.2, h.2⟩⟩⟩

theorem blockBytes_even (settings : AudioSettings) : Even settings.blockBytes :=
  ⟨settings.framesPerBlock, by
  rw [AudioSettings.blockBytes, Nat.mul_two]⟩

theorem blockBytes_pos (settings : AudioSettings) : 0 < settings.blockBytes :=
  Nat.mul_pos settings.framesPerBlock_pos (by decide)

/-- Blocks of an even size stay aligned. -/
theorem alignedFrom_blocks {blocks : List (List B)}
    (hsize : ∀ bs ∈ blocks, bs.length = settings.blockBytes) (hpos : Even pos) :
    AlignedFrom pos (blocks.map Piece.block) := by
  induction blocks generalizing pos with
  | nil => trivial
  | cons bs blocks ih =>
    refine ⟨hpos, ih (fun bs hbs => hsize bs (List.mem_cons_of_mem _ hbs)) ?_⟩
    rw [hsize bs List.mem_cons_self]
    exact hpos.add (blockBytes_even settings)

/-- What the cap trims when a chunk comes in. -/
def trims (settings : AudioSettings) (stream : AudioStream B) (chunk : List B) : List (Piece B) :=
  if stream.overflow settings chunk = 0 then []
  else [.trimmed ((stream.buffer ++ chunk).take (stream.overflow settings chunk))]

/-- The bytes that the cap leaves. -/
def capped (settings : AudioSettings) (stream : AudioStream B) (chunk : List B) : List B :=
  (stream.buffer ++ chunk).drop (stream.overflow settings chunk)

theorem feed_eq (settings : AudioSettings) (hrunning : stream.running = true)
    (hchunk : chunk ≠ []) : stream.feed settings chunk =
      (trims settings stream chunk ++
          (takeBlocks settings.blockBytes (capped settings stream chunk).length
            (capped settings stream chunk)).1.map .block,
        { stream with
          buffer := (takeBlocks settings.blockBytes (capped settings stream chunk).length
            (capped settings stream chunk)).2 }) := by
  have hfeeds : ¬(!stream.running || chunk.isEmpty) = true := by
    simp [hrunning, hchunk]
  rw [feed, if_neg hfeeds]
  rfl

theorem bytesOf_trims (settings : AudioSettings) (stream : AudioStream B) (chunk : List B) :
    bytesOf (trims settings stream chunk) = (stream.buffer ++ chunk).take
      (stream.overflow settings chunk) := by
  unfold trims
  split_ifs with hover
  · rw [hover]
    rfl
  · exact List.append_nil _

theorem overflow_le (settings : AudioSettings) (stream : AudioStream B) (chunk : List B) :
    stream.overflow settings chunk ≤ (stream.buffer ++ chunk).length := by
  unfold overflow
  split_ifs <;> omega

/-- A chunk for a running stream leaves less than a block behind, and its pieces and the rest are
the bytes that were there, in order. -/
theorem feed_spec (settings : AudioSettings) (hrunning : stream.running = true) (chunk : List B) :
    (stream.feed settings chunk).2.running = true ∧
    bytesOf (stream.feed settings chunk).1 ++ (stream.feed settings chunk).2.buffer =
      stream.buffer ++ chunk ∧
    (∀ bs, .block bs ∈ (stream.feed settings chunk).1 → bs.length = settings.blockBytes) ∧
    (stream.buffer.length < settings.blockBytes →
      (stream.feed settings chunk).2.buffer.length < settings.blockBytes) := by
  by_cases hchunk : chunk = []
  · subst hchunk
    have hfeed : stream.feed settings [] = ([], stream) := by simp [feed]
    rw [hfeed]
    exact ⟨hrunning, by simp [bytesOf], fun bs hbs => (by cases hbs), id⟩
  · rw [feed_eq settings hrunning hchunk]
    refine ⟨hrunning, ?_, fun bs hbs => ?_,
      fun _ => takeBlocks_rest (blockBytes_pos settings) le_rfl⟩
    · rw [bytesOf_append, bytesOf_trims, bytesOf_blocks, List.append_assoc, takeBlocks_flatten]
      exact List.take_append_drop _ _
    · rcases List.mem_append.mp hbs with hbs | hbs
      · unfold trims at hbs
        split_ifs at hbs <;> simp at hbs
      · obtain ⟨bs', hmem, he⟩ := List.mem_map.mp hbs
        cases he
        exact takeBlocks_size _ _ _ bs hmem

theorem blockBytes_le_cap (h : settings.cap ≠ 0) : settings.blockBytes ≤ settings.cap := by
  unfold AudioSettings.cap at h ⊢
  split_ifs at h ⊢
  · exact le_max_right _ _
  · exact absurd rfl h

/-- Where the cap trims a chunk, a block follows at once. -/
theorem feed_aligned (chunk : List B) (hrunning : stream.running = true)
    (hbuffer : stream.buffer.length < settings.blockBytes)
    (hpos : Even pos) : AlignedFrom pos (stream.feed settings chunk).1 ↔
      Even (stream.overflow settings chunk) := by
  by_cases hchunk : chunk = []
  · subst hchunk
    have hfeed : stream.feed settings [] = ([], stream) := by simp [feed]
    have hnone : stream.overflow settings [] = 0 := by
      refine if_neg ?_
      rintro ⟨hcap, hlong⟩
      rw [List.append_nil] at hlong
      have hle := blockBytes_le_cap hcap
      omega
    rw [hfeed, hnone]
    exact ⟨fun _ => ⟨0, rfl⟩, fun _ => trivial⟩
  have hsizes := takeBlocks_size settings.blockBytes (capped settings stream chunk).length
    (capped settings stream chunk)
  rw [feed_eq settings hrunning hchunk, alignedFrom_append, bytesOf_trims,
    List.length_take_of_le (overflow_le settings stream chunk)]
  have htrims : AlignedFrom pos (trims settings stream chunk) := by
    unfold trims
    split_ifs <;> trivial
  rw [and_iff_right htrims]
  constructor
  · intro h
    by_cases hover : stream.overflow settings chunk = 0
    · exact hover ▸ ⟨0, rfl⟩
    have hcap : settings.cap ≠ 0 ∧ settings.cap < (stream.buffer ++ chunk).length := by
      by_contra hno
      exact hover (if_neg hno)
    have hleft : (capped settings stream chunk).length = settings.cap := by
      rw [capped, List.length_drop, overflow, if_pos hcap]
      omega
    have hle := blockBytes_le_cap hcap.1
    have hpos' := blockBytes_pos settings
    obtain ⟨bs, rest, hblocks⟩ :=
      takeBlocks_ne_nil (n := settings.blockBytes) (hleft ▸ hle : _ ≤
        (capped settings stream chunk).length)
      (hleft ▸ hpos'.trans_le hle)
    rw [hblocks] at h
    exact (Nat.even_add.mp h.1).mp hpos
  · exact fun hover => alignedFrom_blocks hsizes (hpos.add hover)

/-- No chunk is trimmed by an odd number of bytes. -/
def EvenTrims (settings : AudioSettings) : AudioStream B → List (List B) → Prop
  | _, [] => True
  | stream, chunk :: chunks =>
    Even (stream.overflow settings chunk) ∧ EvenTrims settings (stream.feed settings chunk).2 chunks

theorem even_pieces (settings : AudioSettings) (hrunning : stream.running = true)
    (hover : Even (stream.overflow settings chunk)) : ∀ piece ∈ (stream.feed settings chunk).1,
      Even piece.bytes.length := by
  intro piece hpiece
  cases piece with
  | block bs =>
    rw [Piece.bytes, (feed_spec settings hrunning chunk).2.2.1 bs hpiece]
    exact blockBytes_even settings
  | trimmed bs =>
    by_cases hchunk : chunk = []
    · subst hchunk
      simp [feed] at hpiece
    rw [feed_eq settings hrunning hchunk] at hpiece
    rcases List.mem_append.mp hpiece with hpiece | hpiece
    · unfold trims at hpiece
      split_ifs at hpiece
      · cases hpiece
      · cases List.mem_singleton.mp hpiece
        rw [Piece.bytes, List.length_take_of_le (overflow_le settings stream chunk)]
        exact hover
    · simp at hpiece

theorem even_bytesOf (h : ∀ piece ∈ pieces, Even piece.bytes.length) :
    Even (bytesOf pieces).length := by
  induction pieces with
  | nil => exact ⟨0, rfl⟩
  | cons piece pieces ih =>
    rw [bytesOf, List.flatMap_cons, List.length_append]
    exact (h piece List.mem_cons_self).add (ih fun p hp => h p (List.mem_cons_of_mem _ hp))

theorem feedAll_spec (settings : AudioSettings) (stream : AudioStream B)
    (hrunning : stream.running = true) (hbuffer : stream.buffer.length < settings.blockBytes)
    (chunks : List (List B)) :
    bytesOf (stream.feedAll settings chunks).1 ++ (stream.feedAll settings chunks).2.buffer =
      stream.buffer ++ chunks.flatten ∧
    (∀ bs, .block bs ∈ (stream.feedAll settings chunks).1 → bs.length = settings.blockBytes) ∧
    (stream.feedAll settings chunks).2.buffer.length < settings.blockBytes := by
  induction chunks generalizing stream with
  | nil => exact ⟨(List.append_nil _).symm, fun bs hbs => (by cases hbs), hbuffer⟩
  | cons chunk chunks ih =>
    obtain ⟨hrun, hbytes, hsize, hsmall⟩ := feed_spec settings hrunning chunk
    obtain ⟨hrest, hsizes, hend⟩ := ih _ hrun (hsmall hbuffer)
    rw [feedAll]
    refine ⟨?_, fun bs hbs => ?_, hend⟩
    · rw [bytesOf_append, List.append_assoc, hrest, ← List.append_assoc, hbytes, List.append_assoc,
        List.flatten_cons]
    · rcases List.mem_append.mp hbs with hbs | hbs
      · exact hsize bs hbs
      · exact hsizes bs hbs

/-- A run is aligned just where no trim is odd, and then every piece is even. -/
theorem feedAll_aligned (settings : AudioSettings) (stream : AudioStream B)
    (hrunning : stream.running = true) (hbuffer : stream.buffer.length < settings.blockBytes)
    (hpos : Even pos) (chunks : List (List B)) :
    (AlignedFrom pos (stream.feedAll settings chunks).1 ↔ EvenTrims settings stream chunks) ∧
    (EvenTrims settings stream chunks → ∀ piece ∈ (stream.feedAll settings chunks).1,
      Even piece.bytes.length) := by
  induction chunks generalizing stream pos with
  | nil => exact ⟨Iff.rfl, fun _ piece hpiece => (by cases hpiece)⟩
  | cons chunk chunks ih =>
    obtain ⟨hrun, -, -, hsmall⟩ := feed_spec settings hrunning chunk
    have hfirst := feed_aligned chunk hrunning hbuffer hpos
    have hnext : Even (stream.overflow settings chunk) →
        Even (pos + (bytesOf (stream.feed settings chunk).1).length) :=
      fun hover => hpos.add (even_bytesOf (even_pieces settings hrunning hover))
    rw [feedAll, alignedFrom_append, EvenTrims]
    refine ⟨⟨fun h => ?_, fun h => ?_⟩, fun h piece hpiece => ?_⟩
    · have hover := hfirst.mp h.1
      exact ⟨hover, (ih _ hrun (hsmall hbuffer) (hnext hover)).1.mp h.2⟩
    · exact ⟨hfirst.mpr h.1, (ih _ hrun (hsmall hbuffer) (hnext h.1)).1.mpr h.2⟩
    · rcases List.mem_append.mp hpiece with hpiece | hpiece
      · exact even_pieces settings hrunning h.1 piece hpiece
      · exact (ih _ hrun (hsmall hbuffer) (hnext h.1)).2 h.2 piece hpiece

/-- The 16-bit samples of some bytes. -/
def samples : List B → List (B × B)
  | low :: high :: bytes => (low, high) :: samples bytes
  | _ => []

theorem samples_append {front : List B} (heven : Even front.length) (back : List B) :
    samples (front ++ back) = samples front ++ samples back := by
  induction front using samples.induct with
  | case1 low high bytes ih =>
    have hbytes : Even bytes.length := by
      rw [List.length_cons, List.length_cons, Nat.add_assoc] at heven
      exact (Nat.even_add.mp heven).mpr ⟨1, rfl⟩
    rw [List.cons_append, List.cons_append, samples, samples, ih hbytes, List.cons_append]
  | case2 front hshort =>
    cases front with
    | nil => rfl
    | cons low rest =>
      cases rest with
      | nil => exact absurd heven (show ¬Even 1 by decide)
      | cons high bytes => exact absurd rfl (hshort low high bytes)

theorem samples_pieces (h : ∀ piece ∈ pieces, Even piece.bytes.length) :
    (pieces.flatMap fun piece => samples piece.bytes) = samples (bytesOf pieces) := by
  induction pieces with
  | nil => rfl
  | cons piece pieces ih =>
    rw [List.flatMap_cons, bytesOf, List.flatMap_cons, samples_append (h piece List.mem_cons_self),
      ih fun p hp => h p (List.mem_cons_of_mem _ hp)]
    rfl

/-- The samples of connections that are whole are those of all their bytes. -/
theorem samples_connections {connections : List (List (List B))}
    (h : ∀ chunks ∈ connections, Even chunks.flatten.length) :
    (connections.flatMap fun chunks => samples chunks.flatten) =
      samples connections.flatten.flatten := by
  induction connections with
  | nil => rfl
  | cons chunks connections ih =>
    rw [List.flatMap_cons, List.flatten_cons, List.flatten_append,
      samples_append (h chunks List.mem_cons_self), ih fun c hc => h c (List.mem_cons_of_mem _ hc)]

/-- The chunks of some connections, fed to a stream that has been started, come out as whole
samples: each block has the size of one and starts with a sample, every sample goes to a block or a
trim or waits for its block, in order, and less than a block waits after each chunk. -/
structure KeepsSamples (settings : AudioSettings) (connections : List (List (List B))) : Prop where
  size : ∀ bs, .block bs ∈ ((start {}).feedAll settings connections.flatten).1 →
    bs.length = settings.blockBytes
  aligned : AlignedFrom 0 ((start {}).feedAll settings connections.flatten).1
  samples : (((start {}).feedAll settings connections.flatten).1.flatMap fun piece =>
    samples piece.bytes) ++ samples ((start {}).feedAll settings connections.flatten).2.buffer =
      connections.flatMap fun chunks => samples chunks.flatten
  waiting : ∀ fed rest, connections.flatten = fed ++ rest →
    ((start {}).feedAll settings fed).2.buffer.length < settings.blockBytes

theorem keepsSamples_iff (settings : AudioSettings) {connections : List (List (List B))}
    (hwhole : ∀ chunks ∈ connections, Even chunks.flatten.length) :
    KeepsSamples settings connections ↔ EvenTrims settings (start {}) connections.flatten := by
  have hempty : (start ({} : AudioStream B)).buffer.length < settings.blockBytes :=
    blockBytes_pos settings
  obtain ⟨haligned, heven⟩ :=
    feedAll_aligned settings (start ({} : AudioStream B)) rfl hempty (⟨0, rfl⟩ : Even 0)
    connections.flatten
  refine ⟨fun h => haligned.mp h.aligned, fun h => ?_⟩
  obtain ⟨hbytes, hsize, -⟩ :=
    feedAll_spec settings (start ({} : AudioStream B)) rfl hempty connections.flatten
  refine ⟨hsize, haligned.mpr h, ?_,
    fun fed rest _ => (feedAll_spec settings (start {}) rfl hempty fed).2.2⟩
  have hpieces := heven h
  rw [samples_pieces hpieces, ← samples_append (even_bytesOf hpieces), hbytes,
    samples_connections hwhole]
  rfl

/-- Blocks of one sample, and a buffer of no more. -/
def tiny : AudioSettings := ⟨1, 2, by decide⟩

/-- A chunk that splits a sample and goes over the cap by a byte: the block joins two samples. -/
theorem odd_trim_shifts : ¬KeepsSamples tiny [[[10, 11, 20], [21]]] := by
  intro h
  have hrun : ((start {}).feedAll tiny [[10, 11, 20], [21]]).1 = [.trimmed [10],
    .block [11, 20]] := by decide
  have haligned := h.aligned
  rw [show [[[10, 11, 20], [21]]].flatten = [[10, 11, 20], [21]] from rfl, hrun] at haligned
  exact absurd haligned.1 (by decide)

theorem keepsSamples_iff_split : KeepsSamples tiny [[[10], [11]], [[20, 21]]] :=
  (keepsSamples_iff tiny (by decide)).mpr ⟨by decide, by decide, by decide, trivial⟩

end Kaine.Remote
