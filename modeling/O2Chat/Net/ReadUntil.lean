import Mathlib.Data.List.Infix
import O2Chat.Net.Decode

/-!
# The value of `read_until`

`Net.readUntil` is what the client makes of `BasicTcpClient::read_until`: the response.
Here is the method with the value that it returns as well, which its two paths do not
count in the same way.
-/
namespace O2Chat.Net

open O2Chat.Common O2Chat.Lib.Search O2Chat.Lib.Stream

/-- `read_from_buffer`: the response and what is left of the stream buffer. -/
def readFromBuffer (streambuf delimiter : Bytes) (transferred : Nat) : Bytes × Bytes :=
  (streambuf.take (transferred - delimiter.length), streambuf.drop transferred)

/-- `BasicTcpClient::read_until`: the returned value and `m_Response`. -/
def BasicTcpClient.readUntil (delimiter : Bytes) : Reader UInt8 (Nat × Bytes) := fun client =>
  match if client.buffered = [] then none else search delimiter client.buffered with
  | some pos =>
    let response := client.buffered.take pos
    some ((response.length, response),
      { client with buffered := client.buffered.drop (pos + delimiter.length) })
  | none =>
    let result := readLoop (contains delimiter) client.incoming 0 client.buffered
    match result.1 with
    | none => none
    | some pos =>
      -- what is transferred goes up to and including the delimiter
      let transferred := pos + delimiter.length
      let cut := readFromBuffer result.2.buffered delimiter transferred
      some ((transferred, cut.1), { result.2 with buffered := cut.2 })

/-- The response is the one that the rest of the client works with. -/
theorem readUntil_response (delimiter : Bytes) (client : TcpClient) :
    readUntil delimiter client =
      (BasicTcpClient.readUntil delimiter client).map fun result => (result.1.2, result.2) := by
  unfold readUntil BasicTcpClient.readUntil
  generalize (if client.buffered = [] then none else search delimiter client.buffered) = found
  cases found with
  | some pos => rfl
  | none =>
    dsimp only
    generalize readLoop (contains delimiter) client.incoming 0 client.buffered = result
    obtain ⟨matched, client'⟩ := result
    cases matched with
    | none => rfl
    | some pos =>
      dsimp only
      rw [Option.map_some, readFromBuffer, Nat.add_sub_cancel]

/-- The value that is returned when the first delimiter is at `pos`. -/
def valueAt (delimiter : Bytes) (client : TcpClient) (pos : Nat) : Nat :=
  if delimiter <:+: client.buffered then pos else pos + delimiter.length

/-- The path through the buffer counts the response, the other one the delimiter too. -/
theorem readUntil_value {delimiter : Bytes} {client : TcpClient} {pos : Nat}
    (h : search delimiter client.unread = some pos) : ∃ response client',
      BasicTcpClient.readUntil delimiter client =
        some ((valueAt delimiter client pos, response), client') := by
  unfold BasicTcpClient.readUntil valueAt
  cases hbuf : search delimiter client.buffered with
  | some n =>
    obtain rfl : n = pos := by
      have hsame := search_append_right hbuf client.incoming.flatten
      exact Option.some.inj (hsame.symm.trans h)
    have hle := search_length_le hbuf
    rw [if_pos (not_not.mp (mt search_eq_none_iff.mpr (by rw [hbuf]; exact Option.some_ne_none n)))]
    by_cases hempty : client.buffered = []
    · -- an empty delimiter is left to the other path, where it adds nothing
      obtain ⟨hmatch, -⟩ := readLoop_contains client.incoming client.buffered rfl h
      have hlen : delimiter.length = 0 := by
        rw [hempty, List.length_nil] at hle
        omega
      rw [if_pos hempty]
      dsimp only
      rw [hmatch, hlen]
      exact ⟨_, _, rfl⟩
    · rw [if_neg hempty]
      dsimp only
      rw [List.length_take, Nat.min_eq_left (by omega)]
      exact ⟨_, _, rfl⟩
  | none =>
    obtain ⟨hmatch, -⟩ := readLoop_contains client.incoming client.buffered rfl h
    rw [ite_self, if_neg (search_eq_none_iff.mp hbuf)]
    dsimp only
    rw [hmatch]
    exact ⟨_, _, rfl⟩

theorem readUntil_result {delimiter : Bytes} {client : TcpClient} {pos : Nat}
    (h : search delimiter client.unread = some pos) : ∃ client',
      BasicTcpClient.readUntil delimiter client =
        some ((valueAt delimiter client pos, client.unread.take pos), client') ∧
      client'.unread = client.unread.drop (pos + delimiter.length) := by
  obtain ⟨client', hread, hrest⟩ := readUntil_yields h client rfl
  obtain ⟨response, client'', hvalue⟩ := readUntil_value h
  rw [readUntil_response, hvalue] at hread
  obtain ⟨rfl, rfl⟩ := Prod.mk.inj (Option.some.inj hread)
  exact ⟨_, hvalue, hrest⟩

theorem valueAt_eq_iff (delimiter : Bytes) (client₁ client₂ : TcpClient) (pos : Nat) :
    valueAt delimiter client₁ pos = valueAt delimiter client₂ pos ↔
      delimiter = [] ∨ (delimiter <:+: client₁.buffered ↔ delimiter <:+: client₂.buffered) := by
  rw [← List.length_eq_zero_iff]
  unfold valueAt
  by_cases h₁ : delimiter <:+: client₁.buffered
  · by_cases h₂ : delimiter <:+: client₂.buffered
    · rw [if_pos h₁, if_pos h₂]
      exact iff_of_true rfl (Or.inr (iff_of_true h₁ h₂))
    · rw [if_pos h₁, if_neg h₂, left_eq_add]
      exact (or_iff_left fun h => h₂ (h.mp h₁)).symm
  · by_cases h₂ : delimiter <:+: client₂.buffered
    · rw [if_neg h₁, if_pos h₂, add_eq_left]
      exact (or_iff_left fun h => h₁ (h.mpr h₂)).symm
    · rw [if_neg h₁, if_neg h₂]
      exact iff_of_true rfl (Or.inr (iff_of_false h₁ h₂))

/-- However the bytes are divided, `read_until` sets the same response and leaves the same
bytes. It returns the same value exactly when the delimiter is empty, or is in both
buffers at once, or in neither. -/
theorem readUntil_agrees_iff (delimiter : Bytes) (client₁ client₂ : TcpClient)
    (hsame : client₁.unread = client₂.unread) (hin : delimiter <:+: client₁.unread) :
    ∃ value₁ value₂ response client₁' client₂',
      BasicTcpClient.readUntil delimiter client₁ = some ((value₁, response), client₁') ∧
      BasicTcpClient.readUntil delimiter client₂ = some ((value₂, response), client₂') ∧
      search delimiter client₁.unread = some response.length ∧
      client₁.unread = response ++ (delimiter ++ client₁'.unread) ∧
      client₁'.unread = client₂'.unread ∧
      (value₁ = value₂ ↔
        delimiter = [] ∨ (delimiter <:+: client₁.buffered ↔ delimiter <:+: client₂.buffered)) := by
  obtain ⟨pos, hpos⟩ := Option.ne_none_iff_exists'.mp (mt search_eq_none_iff.mp (not_not.mpr hin))
  obtain ⟨client₁', hread₁, hrest₁⟩ := readUntil_result hpos
  obtain ⟨client₂', hread₂, hrest₂⟩ := readUntil_result (hsame ▸ hpos)
  refine ⟨_, _, _, client₁', client₂', hread₁, ?_, ?_, ?_, ?_, valueAt_eq_iff delimiter _ _ pos⟩
  · rw [hread₂, hsame]
  · have hle := search_length_le hpos
    rw [hpos, List.length_take, Nat.min_eq_left (by omega)]
  · rw [hrest₁]
    exact search_cut hpos
  · rw [hrest₁, hrest₂, hsame]

namespace Sample

/-- A line in the buffer, and one of which the end is still to come. -/
def lineBuffered : TcpClient := ⟨bytes "a\r\nb", []⟩

def lineArriving : TcpClient := ⟨bytes "a\r", [bytes "\nb"]⟩

end Sample

theorem readUntil_agrees_arriving : ∃ value response client₁' client₂',
    BasicTcpClient.readUntil CRLF Sample.lineArriving = some ((value, response), client₁') ∧
    BasicTcpClient.readUntil CRLF ⟨[], [bytes "a\r\nb"]⟩ = some ((value, response), client₂') := by
  obtain ⟨value₁, value₂, response, client₁', client₂', h₁, h₂, -, -, -, hvalue⟩ :=
    readUntil_agrees_iff CRLF Sample.lineArriving ⟨[], [bytes "a\r\nb"]⟩ (by decide) (by decide)
  obtain rfl := hvalue.mpr (Or.inr (by decide))
  exact ⟨value₁, response, client₁', client₂', h₁, h₂⟩

/-- The response is `a` on both paths; 1 is returned for it, and 3. -/
theorem read_until_disagrees : Sample.lineBuffered.unread = Sample.lineArriving.unread ∧
    BasicTcpClient.readUntil CRLF Sample.lineBuffered =
      some ((1, bytes "a"), ⟨bytes "b", []⟩) ∧
    BasicTcpClient.readUntil CRLF Sample.lineArriving =
      some ((3, bytes "a"), ⟨bytes "b", []⟩) := by
  decide

end O2Chat.Net
