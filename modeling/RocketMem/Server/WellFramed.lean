import RocketMem.Server.Grouping

namespace RocketMem

open List TransactionGrouper

/-- A part of a well-framed stream: a frame by itself, or a transaction with its two markers. -/
inductive StreamPart where
  | plain (frame : { f : Frame // marker f = none })
  | block (opening : { f : Frame // marker f = some .multi })
      (body : List { f : Frame // marker f = none })
      (closing : { f : Frame // marker f = some .exec })

namespace StreamPart

def frames : StreamPart → List Frame
  | plain f => [f.1]
  | block opening body closing => opening.1 :: (body.map Subtype.val ++ [closing.1])

def releases : StreamPart → List (List Frame)
  | plain f => [[f.1]]
  | block _ body _ => [] :: (body.map (fun _ => []) ++ [body.map Subtype.val])

end StreamPart

theorem marker_of_mem_body (body : List { f : Frame // marker f = none }) :
    ∀ f ∈ body.map Subtype.val, marker f = none := by
  intro f hf
  obtain ⟨b, -, rfl⟩ := mem_map.mp hf
  exact b.2

def stream (parts : List StreamPart) : List Frame := parts.flatMap StreamPart.frames

namespace TransactionGrouper

variable {frame : Frame} {xs : List Frame}

theorem feed_plain (hframe : marker frame = none) : new.feed frame = .ok ([frame], new) := by
  simp [feed, hframe, new]

theorem feed_multi (hframe : marker frame = some .multi) :
    new.feed frame = .ok ([], ⟨some []⟩) := by
  simp [feed, hframe, new]

theorem feed_exec (hframe : marker frame = some .exec) (buffer : List Frame) :
    feed ⟨some buffer⟩ frame = .ok (buffer, new) := by
  simp [feed, hframe, new]

theorem feed_buffered (hframe : marker frame = none) (buffer : List Frame) :
    feed ⟨some buffer⟩ frame = .ok ([], ⟨some (buffer ++ [frame])⟩) := by
  simp [feed, hframe]

theorem feedEach_buffered (hxs : ∀ f ∈ xs, marker f = none) (buffer : List Frame) :
    feedEach ⟨some buffer⟩ xs = .ok (xs.map fun _ => [], ⟨some (buffer ++ xs)⟩) := by
  induction xs generalizing buffer with
  | nil => simp [feedEach]
  | cons frame xs ih =>
    have hrest := ih (fun f hf => hxs f (mem_cons_of_mem _ hf)) (buffer ++ [frame])
    rw [append_assoc] at hrest
    exact feedEach_cons_iff.mpr ⟨_, _, _, feed_buffered (hxs frame mem_cons_self) buffer, hrest, rfl⟩

theorem feedEach_opened {opening : Frame} (hopening : marker opening = some .multi)
    (hxs : ∀ f ∈ xs, marker f = none) :
    new.feedEach (opening :: xs) = .ok ((opening :: xs).map fun _ => [], ⟨some xs⟩) :=
  feedEach_cons_iff.mpr ⟨_, _, _, feed_multi hopening, feedEach_buffered hxs [], rfl⟩

theorem feedEach_part (part : StreamPart) :
    new.feedEach part.frames = .ok (part.releases, new) := by
  cases part with
  | plain f => exact feedEach_cons_iff.mpr ⟨_, _, _, feed_plain f.2, rfl, rfl⟩
  | block opening body closing =>
    have hclosing : feedEach ⟨some (body.map Subtype.val)⟩ [closing.1] =
        .ok ([body.map Subtype.val], new) :=
      feedEach_cons_iff.mpr ⟨_, _, _, feed_exec closing.2 _, rfl, rfl⟩
    have hblock := feedEach_append (feedEach_opened opening.2 (marker_of_mem_body body)) hclosing
    simpa [StreamPart.frames, StreamPart.releases, Function.comp_def] using hblock

theorem feedEach_stream (parts : List StreamPart) :
    new.feedEach (stream parts) = .ok (parts.flatMap StreamPart.releases, new) := by
  induction parts with
  | nil => rfl
  | cons part parts ih => exact feedEach_append (feedEach_part part) ih

end TransactionGrouper

/-- Where a prefix of a stream ends: after whole parts, or inside a block that begins there. -/
structure CutAt (parts closed : List StreamPart) (inside : List Frame) : Prop where
  whole : closed <+: parts
  rest : inside = [] ∨ ∃ opening body closing,
    closed ++ [.block opening body closing] <+: parts ∧
      ∃ kept, kept <+: body.map Subtype.val ∧ inside = opening.1 :: kept

theorem CutAt.cons {parts closed : List StreamPart} {inside : List Frame}
    (h : CutAt parts closed inside) (part : StreamPart) :
    CutAt (part :: parts) (part :: closed) inside := by
  refine ⟨cons_prefix_cons.mpr ⟨rfl, h.whole⟩, h.rest.imp_right ?_⟩
  rintro ⟨opening, body, closing, hblock, hkept⟩
  exact ⟨opening, body, closing, cons_prefix_cons.mpr ⟨rfl, hblock⟩, hkept⟩

theorem StreamPart.cut (part : StreamPart) (parts : List StreamPart) {n : Nat}
    (hn : n < part.frames.length) : CutAt (part :: parts) [] (part.frames.take n) := by
  refine { whole := nil_prefix, rest := ?_ }
  cases n with
  | zero => exact .inl rfl
  | succ n =>
    cases part with
    | plain f => exact absurd hn (by simp [frames])
    | block opening body closing =>
      refine .inr ⟨opening, body, closing, prefix_append _ _, _, take_prefix n _, ?_⟩
      have hn' : n ≤ (body.map Subtype.val).length := by
        simp only [frames, length_cons, length_append, length_nil] at hn
        omega
      rw [frames, take_succ_cons, take_append_of_le_length hn']

theorem exists_cut (parts : List StreamPart) (n : Nat) :
    ∃ closed inside, CutAt parts closed inside ∧
      (stream parts).take n = stream closed ++ inside := by
  induction parts generalizing n with
  | nil => exact ⟨[], [], { whole := nil_prefix, rest := .inl rfl }, take_nil⟩
  | cons part parts ih =>
    rcases Nat.lt_or_ge n part.frames.length with hn | hn
    · refine ⟨[], _, part.cut parts hn, ?_⟩
      rw [stream, flatMap_cons, take_append_of_le_length hn.le]
      rfl
    · obtain ⟨closed, inside, hcut, htake⟩ := ih (n - part.frames.length)
      refine ⟨part :: closed, inside, hcut.cons part, ?_⟩
      rw [stream, flatMap_cons, take_append, take_of_length_le hn]
      change _ ++ (stream parts).take _ = _
      rw [htake, ← append_assoc]
      rfl

theorem StreamPart.flatten_releases (part : StreamPart) :
    part.releases.flatten = commands part.frames := by
  cases part with
  | plain f => simp [releases, frames, commands_of_none f.2]
  | block opening body closing =>
    have hbody : commands (body.map Subtype.val) = body.map Subtype.val :=
      filter_eq_self.mpr fun f hf => by rw [marker_of_mem_body body f hf]; rfl
    have hopening := commands_of_some opening.2
    have hclosing := commands_of_some closing.2
    rw [frames, ← singleton_append, commands_append, commands_append, hopening, hclosing, hbody]
    simp [releases]

theorem flatten_releases (parts : List StreamPart) :
    (parts.flatMap StreamPart.releases).flatten = commands (stream parts) := by
  induction parts with
  | nil => rfl
  | cons part parts ih =>
    rw [stream, flatMap_cons, flatMap_cons, flatten_append, commands_append, ih,
      part.flatten_releases]
    rfl

/-- A prefix of a well-framed stream ends after whole parts, or inside a block. The grouper takes
it without an error: of the whole parts it has released every plain frame, a block in one piece at
its last marker and not before, of the block it is inside nothing. -/
theorem grouping_exact (parts : List StreamPart) (n : Nat) :
    ∃ (closed : List StreamPart) (inside : List Frame) (g : TransactionGrouper),
      CutAt parts closed inside ∧ (stream parts).take n = stream closed ++ inside ∧
        TransactionGrouper.new.feedEach ((stream parts).take n) =
          .ok (closed.flatMap StreamPart.releases ++ inside.map fun _ => [], g) ∧
        (closed.flatMap StreamPart.releases ++ inside.map fun _ => []).flatten =
          commands (stream closed) ∧
        (g.isMidTransaction = true ↔ inside ≠ []) := by
  obtain ⟨closed, inside, hcut, htake⟩ := exists_cut parts n
  have hflatten : (closed.flatMap StreamPart.releases ++ inside.map fun _ => []).flatten =
      commands (stream closed) := by
    rw [flatten_append, flatten_releases]
    simp
  have hclosed := feedEach_stream closed
  rcases hcut.rest with rfl | ⟨opening, body, closing, -, kept, hkept, rfl⟩
  · refine ⟨closed, [], .new, hcut, htake, ?_, hflatten, by simp [new, isMidTransaction]⟩
    rw [htake]
    exact feedEach_append hclosed rfl
  · have hplain (f : Frame) (hf : f ∈ kept) : marker f = none :=
      marker_of_mem_body body f (hkept.subset hf)
    refine ⟨closed, opening.1 :: kept, ⟨some kept⟩, hcut, htake, ?_, hflatten,
      by simp [isMidTransaction]⟩
    rw [htake]
    exact feedEach_append hclosed (feedEach_opened opening.2 hplain)

end RocketMem
