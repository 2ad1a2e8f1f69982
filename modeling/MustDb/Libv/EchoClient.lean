import MustDb.Libv.Handlers

/-!
# `MustDb.Libv.EchoClient`: the client of the echo server

The loop of `main` in `libv/example/client/client.c`, one step for each system call. A line of the
standard input goes to the socket with as many calls of `send` as it needs. What arrives is printed,
which is not modelled. `typed`, `taken` and `got` are the bytes of all lines, those that `send` took
and those that `recv` returned: nothing reads them.
-/

set_option autoImplicit false

namespace MustDb.Libv

open MustDb.Lib

def RX_BUF : Nat := 4096

/-- What `select` returns. -/
inductive SelectAnswer where
  | ready (stdin sock : Bool)
  /-- `EINTR` -/
  | interrupted
  | error
  deriving DecidableEq

/-- Where the client stands. `sock` says whether `select` has found the socket readable too. -/
inductive ClientPc where
  | select
  | getline (sock : Bool)
  | send (line : List UInt8) (off : Nat) (sock : Bool)
  | recv
  | exited
  deriving DecidableEq

/-- The client, in front of the step that `pc` names. -/
structure EchoClient where
  pc : ClientPc
  typed : List UInt8
  taken : List UInt8
  got : List UInt8
  deriving DecidableEq

/-- The answers that a step of the client can ask for. -/
structure ClientAnswers where
  select : SelectAnswer := .interrupted
  /-- A line, or `none` at the end of the input. -/
  getline : Option (List UInt8) := none
  send : WriteAnswer := .interrupted
  /-- Bytes, the end of the stream when there are none, or `none` for an error. -/
  recv : Option (List UInt8) := none

/-- The client behind its `dial`. -/
def EchoClient.init : EchoClient := ⟨.select, [], [], []⟩

/-- Where the loop goes on behind the standard input. -/
def afterInput (sock : Bool) : ClientPc := if sock then .recv else .select

/-- One step of the client. The socket is blocking, so `EAGAIN` is an error like others. -/
def clientStep (client : EchoClient) (answers : ClientAnswers) : EchoClient :=
  match client.pc with
  | .select =>
      match answers.select with
      | .ready true sock => { client with pc := .getline sock }
      | .ready false sock => { client with pc := afterInput sock }
      | .interrupted => client
      | .error => { client with pc := .exited }
  | .getline sock =>
      match answers.getline with
      | none => { client with pc := .exited }
      | some line => { client with pc := .send line 0 sock, typed := client.typed ++ line }
  | .send line off sock =>
      if off < line.length then
        match answers.send with
        | .count n =>
            let w := min n (line.length - off)
            { client with
              pc := .send line (off + w) sock
              taken := client.taken ++ (line.drop off).take w }
        | .interrupted => client
        | .again | .error => { client with pc := .exited }
      else { client with pc := afterInput sock }
  | .recv =>
      match answers.recv with
      | none => { client with pc := .exited }
      | some bytes =>
          let rxbuf := bytes.take (RX_BUF - 1)
          if rxbuf = [] then { client with pc := .exited }
          else { client with pc := .select, got := client.got ++ rxbuf }
  | .exited => client

end MustDb.Libv
