import O2Chat.Net.Client

/-!
# The buffer of `gzipInflate`

`gzipInflate` lets zlib write into a vector and lengthens the vector when it is full;
what it returns are the first `total_out` bytes of that vector. `Buffer` follows the
vector byte by byte. A zlib that writes no more than `avail_out` bytes a call leaves in
it the bytes of all the calls, one after the other.
-/
namespace O2Chat.Net

open O2Chat.Common O2Chat.Lib.Search

/-- The documented meaning of `avail_out`: no call writes more bytes than that. -/
def Zlib.Bounded (z : Zlib) : Prop :=
  ∀ strm availOut, (z.inflate strm availOut).2.1.length ≤ availOut

/-- The size of the buffer a call writes into. -/
def grownSize (halfLength size totalOut : Nat) : Nat :=
  if size ≤ totalOut then size + halfLength else size

theorem le_grownSize (halfLength size totalOut : Nat) : size ≤ grownSize halfLength size totalOut := by
  unfold grownSize
  split <;> omega

/-- One call, and what the loop makes of its result. -/
theorem inflateLoop_call {z : Zlib} {halfLength size totalOut : Nat} {out data : Bytes}
    {strm strm' : z.Stream} {status : InflateStatus} (hout : out.length = totalOut)
    (hcall : z.inflate strm ((grownSize halfLength size totalOut - totalOut) % 2 ^ 32) =
      (status, data, strm')) :
    inflateLoop z halfLength size out strm =
      if status = .ok then
        inflateLoop z halfLength (grownSize halfLength size totalOut) (out ++ data) strm'
      else (status, out ++ data, strm') := by
  subst hout
  unfold grownSize at hcall ⊢
  rw [inflateLoop, hcall]
  rfl

/-! ## The vector -/

namespace Buffer

/-- `buffer.resize(buffer.size() + half_length)`, where there is no space left. -/
def grow (halfLength : Nat) (buffer : Bytes) (totalOut : Nat) : Bytes :=
  if buffer.length ≤ totalOut then buffer ++ List.replicate halfLength 0 else buffer

/-- The buffer after `data` has been written from `pos` on. -/
def overwrite (buffer : Bytes) (pos : Nat) (data : Bytes) : Bytes :=
  buffer.take pos ++ data ++ buffer.drop (pos + data.length)

/-- The loop: the status, the buffer, `total_out` and the stream after the last call. -/
def inflateLoop (z : Zlib) (halfLength : Nat) (buffer : Bytes) (totalOut : Nat) (strm : z.Stream) :
    InflateStatus × Bytes × Nat × z.Stream :=
  let buffer := grow halfLength buffer totalOut
  let result := z.inflate strm ((buffer.length - totalOut) % 2 ^ 32)
  let buffer := overwrite buffer totalOut result.2.1
  if _h : result.1 = .ok then
    inflateLoop z halfLength buffer (totalOut + result.2.1.length) result.2.2
  else (result.1, buffer, totalOut + result.2.1.length, result.2.2)
termination_by z.remaining strm
decreasing_by exact z.progress strm _ _h

/-- The uncompressed bytes, or nothing when `false` is returned. -/
def gzipInflate (z : Zlib) (compressedBytes : Bytes) : Option Bytes :=
  if compressedBytes = [] then some []
  else
    match z.inflateInit2 (compressedBytes.take (compressedBytes.length % 2 ^ 32)) with
    | none => none
    | some strm =>
      let halfLength := compressedBytes.length / 2
      let result := inflateLoop z halfLength (List.replicate (halfLength * 3) 0) 0 strm
      if z.inflateEnd result.2.2.2 = false ∧ result.1 ≠ .streamEnd then none
      else some (result.2.1.take result.2.2.1)

@[simp] theorem length_grow (halfLength : Nat) (buffer : Bytes) (totalOut : Nat) :
    (grow halfLength buffer totalOut).length = grownSize halfLength buffer.length totalOut := by
  unfold grow grownSize
  split
  · rw [List.length_append, List.length_replicate]
  · rfl

theorem take_grow (halfLength : Nat) {buffer : Bytes} {totalOut : Nat} (h : totalOut ≤ buffer.length) :
    (grow halfLength buffer totalOut).take totalOut = buffer.take totalOut := by
  unfold grow
  split
  · rw [List.take_append_of_le_length h]
  · rfl

theorem length_overwrite {buffer data : Bytes} {pos : Nat} (h : pos + data.length ≤ buffer.length) :
    (overwrite buffer pos data).length = buffer.length := by
  unfold overwrite
  rw [List.length_append, List.length_append, List.length_take, List.length_drop]
  omega

/-- Writing at the end of the bytes written so far appends to them. -/
theorem take_overwrite {buffer : Bytes} {pos : Nat} (data : Bytes) (h : pos ≤ buffer.length) :
    (overwrite buffer pos data).take (pos + data.length) = buffer.take pos ++ data := by
  have hlen : (buffer.take pos ++ data).length = pos + data.length := by
    rw [List.length_append, List.length_take_of_le h]
  unfold overwrite
  rw [← hlen, List.take_left]

/-- The space a call is given ends where the buffer does. -/
theorem written_fits {z : Zlib} (hz : z.Bounded) (strm : z.Stream) {size totalOut : Nat}
    (h : totalOut ≤ size) :
    totalOut + (z.inflate strm ((size - totalOut) % 2 ^ 32)).2.1.length ≤ size := by
  have hspace : (size - totalOut) % 2 ^ 32 ≤ size - totalOut := Nat.mod_le _ _
  have hout := hz strm ((size - totalOut) % 2 ^ 32)
  omega

/-- One call, and what the loop on the vector makes of its result. -/
theorem inflateLoop_call {z : Zlib} {halfLength totalOut : Nat} {buffer data : Bytes}
    {strm strm' : z.Stream} {status : InflateStatus}
    (hcall : z.inflate strm ((grownSize halfLength buffer.length totalOut - totalOut) % 2 ^ 32) =
      (status, data, strm')) :
    inflateLoop z halfLength buffer totalOut strm =
      if status = .ok then
        inflateLoop z halfLength (overwrite (grow halfLength buffer totalOut) totalOut data)
          (totalOut + data.length) strm'
      else (status, overwrite (grow halfLength buffer totalOut) totalOut data,
        totalOut + data.length, strm') := by
  rw [inflateLoop, length_grow, hcall]
  rfl

/-- What the loop leaves, with the first `total_out` bytes of the buffer for the buffer. -/
def written {z : Zlib} (result : InflateStatus × Bytes × Nat × z.Stream) :
    InflateStatus × Bytes × z.Stream :=
  (result.1, result.2.1.take result.2.2.1, result.2.2.2)

/-- The front of the vector is what the loop on lists collects. -/
theorem inflateLoop_written {z : Zlib} (hz : z.Bounded) (halfLength : Nat) (buffer : Bytes)
    (totalOut : Nat) (strm : z.Stream) (h : totalOut ≤ buffer.length) :
    written (inflateLoop z halfLength buffer totalOut strm) =
      Net.inflateLoop z halfLength buffer.length (buffer.take totalOut) strm := by
  induction hn : z.remaining strm using Nat.strong_induction_on generalizing buffer totalOut strm with
  | _ n ih =>
    rcases hcall : z.inflate strm
      ((grownSize halfLength buffer.length totalOut - totalOut) % 2 ^ 32) with ⟨status, data, strm'⟩
    have hgrown : totalOut ≤ (grow halfLength buffer totalOut).length := by
      rw [length_grow]
      exact h.trans (le_grownSize _ _ _)
    have hfits : totalOut + data.length ≤ (grow halfLength buffer totalOut).length := by
      have hspace := written_fits hz strm hgrown
      rwa [length_grow, hcall, ← length_grow] at hspace
    have hfront := take_overwrite data hgrown
    rw [take_grow halfLength h] at hfront
    rw [inflateLoop_call hcall, Net.inflateLoop_call (List.length_take_of_le h) hcall]
    by_cases hok : status = .ok
    · rw [if_pos hok, if_pos hok]
      have hless := z.progress strm _ ((congrArg Prod.fst hcall).trans hok)
      rw [hcall, hn] at hless
      have hlen := length_overwrite hfits
      rw [ih _ hless _ _ _ (hlen.symm ▸ hfits) rfl, hlen, hfront, length_grow]
    · rw [if_neg hok, if_neg hok]
      unfold written
      dsimp only
      rw [hfront]

/-- The vector changes nothing about the uncompressed bytes. -/
theorem gzipInflate_eq {z : Zlib} (hz : z.Bounded) (compressedBytes : Bytes) :
    gzipInflate z compressedBytes = Net.gzipInflate z compressedBytes := by
  unfold gzipInflate Net.gzipInflate
  split
  · rfl
  · cases z.inflateInit2 (compressedBytes.take (compressedBytes.length % 2 ^ 32)) with
    | none => rfl
    | some strm =>
      have hloop := inflateLoop_written hz (compressedBytes.length / 2)
        (List.replicate (compressedBytes.length / 2 * 3) 0) 0 strm (Nat.zero_le _)
      rw [List.length_replicate, List.take_zero] at hloop
      dsimp only
      rw [← hloop]
      rfl

end Buffer

/-! ## The calls -/

/-- The calls of the loop that starts with `totalOut` bytes written into a buffer of `size`:
what each writes, the status of the last one and the stream it leaves. -/
inductive Inflates (z : Zlib) (halfLength : Nat) :
    Nat → Nat → z.Stream → List Bytes → InflateStatus → z.Stream → Prop
  | last {size totalOut : Nat} {strm final : z.Stream} {out : Bytes} {status : InflateStatus} :
      z.inflate strm ((grownSize halfLength size totalOut - totalOut) % 2 ^ 32) =
        (status, out, final) →
      status ≠ .ok → Inflates z halfLength size totalOut strm [out] status final
  | next {size totalOut : Nat} {strm strm' final : z.Stream} {out : Bytes} {outs : List Bytes}
      {status : InflateStatus} :
      z.inflate strm ((grownSize halfLength size totalOut - totalOut) % 2 ^ 32) =
        (.ok, out, strm') →
      Inflates z halfLength (grownSize halfLength size totalOut) (totalOut + out.length) strm' outs
        status final →
      Inflates z halfLength size totalOut strm (out :: outs) status final

/-- Whatever the calls do, the loop ends. -/
theorem inflates_exists (z : Zlib) (halfLength size totalOut : Nat) (strm : z.Stream) :
    ∃ outs status final, Inflates z halfLength size totalOut strm outs status final := by
  induction hn : z.remaining strm using Nat.strong_induction_on generalizing size totalOut strm with
  | _ n ih =>
    rcases hcall : z.inflate strm
      ((grownSize halfLength size totalOut - totalOut) % 2 ^ 32) with ⟨status, out, strm'⟩
    by_cases hok : status = .ok
    · subst hok
      have hless := z.progress strm _ (congrArg Prod.fst hcall)
      rw [hcall, hn] at hless
      obtain ⟨outs, status, final, hrest⟩ := ih _ hless (grownSize halfLength size totalOut)
        (totalOut + out.length) strm' rfl
      exact ⟨_, _, _, .next hcall hrest⟩
    · exact ⟨_, _, _, .last hcall hok⟩

/-- The loop collects what its calls write, in order. -/
theorem Inflates.inflateLoop_eq {z : Zlib} {halfLength size totalOut : Nat} {strm final : z.Stream}
    {outs : List Bytes} {status : InflateStatus}
    (h : Inflates z halfLength size totalOut strm outs status final) (out : Bytes)
    (hout : out.length = totalOut) :
    inflateLoop z halfLength size out strm = (status, out ++ outs.flatten, final) := by
  induction h generalizing out with
  | last hcall hok => rw [inflateLoop_call hout hcall, if_neg hok, List.flatten_singleton]
  | next hcall _ ih =>
    rw [inflateLoop_call hout hcall, if_pos rfl, ih _ (List.length_append.trans (hout ▸ rfl)),
      List.flatten_cons, List.append_assoc]

/-! ## Damaged bodies -/

/-- The reply says that its body is compressed. -/
def Zipped (reply : HttpReply) : Prop :=
  reply.hasHeader (bytes "Content-Encoding") = true ∧
    (search (bytes "gzip") (reply.getHeader (bytes "Content-Encoding"))).isSome = true

/-- The calls of `inflate` for these bytes: what each writes, the status of the last one and
the stream it leaves. -/
def Calls (z : Zlib) (compressedBytes : Bytes) (outs : List Bytes) (status : InflateStatus)
    (final : z.Stream) : Prop :=
  ∃ strm, z.inflateInit2 (compressedBytes.take (compressedBytes.length % 2 ^ 32)) = some strm ∧
    Inflates z (compressedBytes.length / 2) (compressedBytes.length / 2 * 3) 0 strm outs status final

/-- Bytes are returned only if the calls end with `Z_STREAM_END`, and they are all that the calls
write. If the calls do not end so, there are none, and the reply becomes a protocol error. -/
def DamageReported (z : Zlib) (reply : HttpReply) : Prop :=
  (∀ out, Buffer.gzipInflate z reply.body = some out →
    ∃ outs final, Calls z reply.body outs .streamEnd final ∧ out = outs.flatten) ∧
  ((¬∃ outs final, Calls z reply.body outs .streamEnd final) →
    Buffer.gzipInflate z reply.body = none ∧
      processReply z reply = .handler (some .protocolError) reply)

variable {z : Zlib} {compressedBytes : Bytes} {outs : List Bytes} {status : InflateStatus}
  {final : z.Stream}

theorem calls_exists {strm : z.Stream} (h : z.inflateInit2
    (compressedBytes.take (compressedBytes.length % 2 ^ 32)) = some strm) :
    ∃ outs status final, Calls z compressedBytes outs status final := by
  obtain ⟨outs, status, final, hrun⟩ := inflates_exists z (compressedBytes.length / 2)
    (compressedBytes.length / 2 * 3) 0 strm
  exact ⟨outs, status, final, strm, h, hrun⟩

/-- The stream is set up and read in one way. -/
theorem Calls.status_unique {outs' : List Bytes} {status' : InflateStatus} {final' : z.Stream}
    (h : Calls z compressedBytes outs status final)
    (h' : Calls z compressedBytes outs' status' final') : status = status' := by
  obtain ⟨strm, hinit, hrun⟩ := h
  obtain ⟨strm', hinit', hrun'⟩ := h'
  obtain rfl := Option.some.inj (hinit.symm.trans hinit')
  have hloop := hrun.inflateLoop_eq [] rfl
  rw [hrun'.inflateLoop_eq [] rfl] at hloop
  exact (congrArg Prod.fst hloop).symm

/-- The two results of zlib that `gzipInflate` looks at after the loop. -/
theorem Calls.gzipInflate_eq (h : Calls z compressedBytes outs status final)
    (hne : compressedBytes ≠ []) :
    gzipInflate z compressedBytes =
      if z.inflateEnd final = false ∧ status ≠ .streamEnd then none else some outs.flatten := by
  obtain ⟨strm, hinit, hrun⟩ := h
  unfold gzipInflate
  rw [if_neg hne, hinit]
  dsimp only
  rw [hrun.inflateLoop_eq [] rfl, List.nil_append]

theorem gzipInflate_init (hne : compressedBytes ≠ [])
    (h : z.inflateInit2 (compressedBytes.take (compressedBytes.length % 2 ^ 32)) = none) :
    gzipInflate z compressedBytes = none := by
  unfold gzipInflate
  rw [if_neg hne, h]

theorem processReply_zipped (z : Zlib) {reply : HttpReply} (hzip : Zipped reply)
    (hbody : reply.body ≠ []) :
    processReply z reply =
      match gzipInflate z reply.body with
      | none => .handler (some .protocolError) reply
      | some r => .handler none { reply with body := r } := by
  unfold processReply
  rw [hzip.1, hzip.2]
  exact if_pos ⟨rfl, hbody⟩

theorem damageReported_none {reply : HttpReply} (hz : z.Bounded) (hzip : Zipped reply)
    (hbody : reply.body ≠ []) (h : gzipInflate z reply.body = none) : DamageReported z reply := by
  have hreply := processReply_zipped z hzip hbody
  rw [h] at hreply
  unfold DamageReported
  rw [Buffer.gzipInflate_eq hz, h]
  exact ⟨nofun, fun _ => ⟨rfl, hreply⟩⟩

/-- Damage goes unreported exactly if the calls end with another status and `inflateEnd` then
succeeds: the test after the loop asks for both of its results to be bad. -/
theorem damage_reported_iff (z : Zlib) (hz : z.Bounded) (reply : HttpReply) (hzip : Zipped reply)
    (hbody : reply.body ≠ []) :
    DamageReported z reply ↔ ∀ outs status final, Calls z reply.body outs status final →
      status = .streamEnd ∨ z.inflateEnd final = false := by
  constructor
  · rintro ⟨hsome, -⟩ outs status final hcalls
    by_contra hbad
    rw [not_or, Bool.not_eq_false] at hbad
    have hout := hcalls.gzipInflate_eq hbody
    rw [hbad.2, if_neg fun h => Bool.noConfusion h.1] at hout
    obtain ⟨outs', final', hend, -⟩ := hsome _ ((Buffer.gzipInflate_eq hz _).trans hout)
    exact hbad.1 (hcalls.status_unique hend)
  · intro hgood
    cases hinit : z.inflateInit2 (reply.body.take (reply.body.length % 2 ^ 32)) with
    | none => exact damageReported_none hz hzip hbody (gzipInflate_init hbody hinit)
    | some strm =>
      obtain ⟨outs, status, final, hcalls⟩ := calls_exists hinit
      have hout := hcalls.gzipInflate_eq hbody
      by_cases hend : status = .streamEnd
      · subst hend
        rw [if_neg fun h => h.2 rfl] at hout
        refine ⟨fun out h => ⟨outs, final, hcalls, ?_⟩, fun h => absurd ⟨outs, final, hcalls⟩ h⟩
        rw [Buffer.gzipInflate_eq hz, hout] at h
        exact (Option.some.inj h).symm
      · rw [if_pos ⟨(hgood _ _ _ hcalls).resolve_left hend, hend⟩] at hout
        exact damageReported_none hz hzip hbody hout

namespace Sample

/-- The gzip file of one stored block, the letter `a`. -/
def stored : Bytes :=
  [0x1f, 0x8b, 8, 0, 0, 0, 0, 0, 4, 3, 1, 1, 0, 0xfe, 0xff, 0x61, 0x43, 0xbe, 0xb7, 0xe8, 1, 0, 0, 0]

/-- zlib, as far as it is asked here: what is not that file is consumed without output, and the
call after that one fails. -/
def storedOnly : Zlib where
  Stream := Bytes
  inflateInit2 := some
  inflate strm availOut :=
    if strm = stored ∧ 1 ≤ availOut then (.streamEnd, bytes "a", [])
    else if strm = [] then (.failed, [], [])
    else (.ok, [], [])
  inflateEnd _ := true
  remaining := List.length
  progress strm availOut h := by
    split at h
    · cases h
    · split at h
      · cases h
      · rename_i hfile hne
        rw [if_neg hfile, if_neg hne]
        exact List.length_pos_iff.mpr hne

theorem storedOnly_bounded : storedOnly.Bounded := by
  intro strm availOut
  unfold storedOnly
  dsimp only
  split
  · rename_i h
    exact h.2
  · split <;> exact Nat.zero_le _

/-- A reply with this compressed body. -/
def zipped (body : Bytes) : HttpReply :=
  { status := 200, body, parsedHeaders := [(bytes "Content-Encoding", bytes "gzip")] }

theorem zipped_zipped (body : Bytes) : Zipped (zipped body) :=
  ⟨rfl, rfl⟩

theorem stored_calls : Calls storedOnly stored [bytes "a"] .streamEnd [] :=
  ⟨stored, rfl, .last rfl (by decide)⟩

theorem truncated_calls : Calls storedOnly (stored.take 2) [[], []] .failed [] :=
  ⟨stored.take 2, rfl, .next rfl (.last rfl (by decide))⟩

end Sample

theorem damage_reported_stored : DamageReported Sample.storedOnly (Sample.zipped Sample.stored) :=
  (damage_reported_iff Sample.storedOnly Sample.storedOnly_bounded (Sample.zipped Sample.stored)
    (Sample.zipped_zipped _) (by decide)).mpr fun _ _ _ hcalls =>
      Or.inl (hcalls.status_unique Sample.stored_calls)

/-- The first two bytes of a gzip file: the reply is delivered with an empty body. -/
theorem truncated_body_delivered :
    ¬DamageReported Sample.storedOnly (Sample.zipped (Sample.stored.take 2)) ∧
      processReply Sample.storedOnly (Sample.zipped (Sample.stored.take 2)) =
        .handler none { Sample.zipped (Sample.stored.take 2) with body := [] } := by
  have hout : gzipInflate Sample.storedOnly (Sample.zipped (Sample.stored.take 2)).body = some [] :=
    Sample.truncated_calls.gzipInflate_eq (by decide)
  constructor
  · rintro ⟨hsome, -⟩
    obtain ⟨outs, final, hend, -⟩ :=
      hsome [] ((Buffer.gzipInflate_eq Sample.storedOnly_bounded _).trans hout)
    exact absurd (Sample.truncated_calls.status_unique hend) (by decide)
  · rw [processReply_zipped _ (Sample.zipped_zipped _) (by decide), hout]

end O2Chat.Net
