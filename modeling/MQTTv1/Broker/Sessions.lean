import MQTTv1.Broker.Rows
import MQTTv1.Broker.StreamIntegrity

/-!
# Connections and their registrations

`sem_mutex` lets the threads register one after the other.  A thread reads the
handshake through a buffer of its own and drops the buffer, so what follows the
handshake is there for the forwarders when some `read` ends with the handshake.
-/

namespace MQTTv1
namespace Broker

open CLib
open Csapp

/-- What one client sends, cut into `read` results, and the thread it meets. -/
structure Connection where
  connfd : Fd
  left : Leftover
  nodeName : CStr
  susInfo : CStr
  opening : List Chunk
  rest : List Chunk
  nodeName_nulFree : NulFree nodeName
  susInfo_nulFree : NulFree susInfo
  nodeName_line : IsLine (nodeName ++ [newline])
  susInfo_line : IsLine (susInfo ++ [newline])
  opening_nonEmpty : NonEmptyChunks opening
  opening_flatten :
    opening.flatten = (nodeName ++ [newline]) ++ (susInfo ++ [newline])
  rest_lines : forall c, c ∈ rest -> IsLine c

namespace Connection

def chunks (k : Connection) : List Chunk := k.opening ++ k.rest

def row (k : Connection) : Row :=
  registeredRow k.connfd k.nodeName k.susInfo k.left

def stream (k : Connection) : ClientStream where
  name := k.nodeName ++ [newline]
  sus := k.susInfo ++ [newline]
  messages := k.rest
  name_line := k.nodeName_line
  sus_line := k.susInfo_line
  messages_line := k.rest_lines

theorem nonEmpty (k : Connection) : NonEmptyChunks k.chunks := by
  intro c hc
  rcases List.mem_append.mp hc with hc | hc
  · exact k.opening_nonEmpty c hc
  · exact (k.rest_lines c hc).ne_nil

theorem chunks_flatten (k : Connection) :
    k.chunks.flatten = k.stream.bytes := by
  unfold chunks ClientStream.bytes
  rw [List.flatten_append, k.opening_flatten]
  rfl

end Connection

theorem append_eq_of_flatten {front front' rest rest' : List Chunk}
    (hchunks : NonEmptyChunks (front ++ rest))
    (hsplit : front ++ rest = front' ++ rest')
    (hflat : front.flatten = front'.flatten) : rest = rest' := by
  have hnil : forall {more : List Chunk}, (forall c, c ∈ more -> c ≠ []) ->
      more.flatten = [] -> more = [] := by
    intro more hmore hempty
    cases more with
    | nil => rfl
    | cons c more =>
        exact absurd (List.append_eq_nil_iff.mp hempty).left
          (hmore c List.mem_cons_self)
  rcases List.append_eq_append_iff.mp hsplit with
    ⟨more, rfl, rfl⟩ | ⟨more, rfl, rfl⟩
  · rw [List.flatten_append, List.self_eq_append_right] at hflat
    rw [hnil ?_ hflat]
    · rfl
    · intro c hc
      exact hchunks c
        (List.mem_append_right _ (List.mem_append_left _ hc))
  · rw [List.flatten_append, List.append_right_eq_self] at hflat
    rw [hnil ?_ hflat]
    · rfl
    · intro c hc
      exact hchunks c
        (List.mem_append_left _ (List.mem_append_right _ hc))

section

variable {k : Connection} {w w' : World} {t t' : Tables}

/-- The registration takes the handshake from the stream and nothing else. -/
theorem Connection.readHandshake_ok
    (hw : w.input k.connfd = delivered k.chunks) :
    readHandshake k.connfd w =
      .ok (some (k.nodeName ++ [newline]), some (k.susInfo ++ [newline]),
        w.setInput k.connfd (delivered k.rest)) := by
  rcases readHandshake_lines hw k.nonEmpty k.chunks_flatten with
    ⟨ahead, fetched, left, hread, htail, hahead⟩
  have hfetched : fetched.flatten =
      (k.stream.name ++ k.stream.sus) ++ ahead :=
    fetched_flatten [] k.chunks_flatten hahead.split htail
  have hcut : CutAt k.chunks (k.stream.name ++ k.stream.sus) := by
    refine ⟨k.opening.length, ?_⟩
    rw [Connection.chunks, List.take_left]
    exact k.opening_flatten
  have hnil := ahead_nil_of_cutAt hahead hfetched hcut
  rw [hnil, List.append_nil] at hfetched
  have hrest : k.rest = left :=
    append_eq_of_flatten k.nonEmpty hahead.split
      (k.opening_flatten.trans hfetched.symm)
  rw [hread, hrest]
  rfl

theorem Connection.registration
    (hw : w.input k.connfd = delivered k.chunks)
    (hreg : threadRegistration k.connfd k.left t w = .ok (t', w')) :
    register t k.connfd k.nodeName k.susInfo k.left = some t' ∧
      w'.input = Function.update w.input k.connfd (delivered k.rest) ∧
      w'.sent = w.sent := by
  have hopened : (writeLog (openedMessage k.connfd) w).input k.connfd =
      delivered k.chunks := hw
  unfold threadRegistration at hreg
  simp only [Connection.readHandshake_ok hopened, bind, Except.bind] at hreg
  have hname : chop (bufferString k.left.bufNodeName
      (some (k.nodeName ++ [newline]))) = k.nodeName :=
    chop_stringOf_line k.nodeName_nulFree
  have hsus : chop (bufferString k.left.bufSusInfo
      (some (k.susInfo ++ [newline]))) = k.susInfo :=
    chop_stringOf_line k.susInfo_nulFree
  rw [hname, hsus] at hreg
  cases hnew : register t k.connfd k.nodeName k.susInfo k.left with
  | none =>
      rw [hnew] at hreg
      cases hreg
  | some new =>
      rw [hnew] at hreg
      cases hreg
      exact ⟨rfl, rfl, rfl⟩

end

/-!
# One thread after the other
-/

/-- The registrations of the accepted connections, in the order of the mutex. -/
def registerAll : List (Fd × Leftover) -> Tables -> World ->
    Except Stop (Tables × World)
  | [], t, w => .ok (t, w)
  | (connfd, left) :: more, t, w => do
      let (t, w) <- threadRegistration connfd left t w
      registerAll more t w

def accepted (ks : List Connection) : List (Fd × Leftover) :=
  ks.map fun k => (k.connfd, k.left)

theorem registerAll_connections :
    forall {ks : List Connection} {rows : List Row} {t t' : Tables}
      {w w' : World},
      (ks.map Connection.connfd).Nodup -> Represents t rows ->
        (forall k, k ∈ ks -> w.input k.connfd = delivered k.chunks) ->
          registerAll (accepted ks) t w = .ok (t', w') ->
            Represents t' (rows ++ ks.map Connection.row) ∧
              (forall k, k ∈ ks -> w'.input k.connfd = delivered k.rest) ∧
              (forall fd, fd ∉ ks.map Connection.connfd ->
                w'.input fd = w.input fd) ∧
              w'.sent = w.sent := by
  intro ks
  induction ks with
  | nil =>
      intro rows t t' w w' _ ht _ hrun
      cases hrun
      rw [List.map_nil, List.append_nil]
      refine ⟨ht, ?_, fun _ _ => rfl, rfl⟩
      intro k hk
      cases hk
  | cons k ks ih =>
      intro rows t t' w w' hfds ht hinput hrun
      rcases bind_eq_ok.mp hrun with ⟨⟨t1, w1⟩, hfirst, hmore⟩
      rcases List.nodup_cons.mp hfds with ⟨hnew, hfds⟩
      rcases Connection.registration (hinput k List.mem_cons_self) hfirst with
        ⟨hreg, htaken, hsent⟩
      have hothers : forall other, other ∈ ks ->
          w1.input other.connfd = delivered other.chunks := by
        intro other hother
        have hne : other.connfd ≠ k.connfd := by
          intro hsame
          exact hnew (hsame ▸ List.mem_map_of_mem hother)
        rw [htaken, Function.update_of_ne hne]
        exact hinput other (List.mem_cons_of_mem _ hother)
      rcases ih hfds (register_represents ht hreg) hothers hmore with
        ⟨hrows, hrest, hframe, hsame⟩
      refine ⟨?_, ?_, ?_, hsame.trans hsent⟩
      · rw [List.append_assoc] at hrows
        exact hrows
      · intro other hother
        rcases List.mem_cons.mp hother with rfl | hother
        · rw [hframe _ hnew, htaken, Function.update_self]
        · exact hrest other hother
      · intro fd hfd
        rw [List.map_cons, List.mem_cons, not_or] at hfd
        rw [hframe fd hfd.right, htaken, Function.update_of_ne hfd.left]

end Broker
end MQTTv1
