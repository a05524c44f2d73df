import OpenFix.Server.Exec

/-!
# The handler of the test server

`tcp_handler_t` of `test/server/main.cpp`: a client that has sent "/sub" is active, and what an
active client sends goes to every active client. `MaxClients` is the backlog of `listen` and
has no part in `run( )`.
-/

namespace OpenFix

namespace Server

/-- "/sub". -/
def sub : List UInt8 := [47, 115, 117, 98]

/-- `tcp_handler_t`, on `active_clients`. -/
def tcpHandler : Handler (List Int) where
  onConnect active _ := active
  onDisconnect active fd := active.erase fd
  onOut active msg := (active, decide (msg.fd ∈ active))
  onRead active fd buf data :=
    if fd ∈ active then (active, [⟨buf, data.length, 0⟩], false)
    else (if sub <:+: data then active ++ [fd] else active, [], true)

/-- `tcp_server`, listening on `fd`. -/
def tcpServer (fd : Int) : Params where
  outSize := 16
  bufSize := 128
  bufPoolSize := 64
  fd := fd

/-! ## Labels of short runs -/

/-- What `poll` reports when nothing is in. -/
def quiet : Events := .none

def readableOnly : Events := ⟨true, false, false⟩

/-- The listening socket is readable: `fd` is accepted. -/
def accepting (clients : Nat) (fd : Int) : List Act :=
  [.poll (readableOnly :: List.replicate clients quiet), .accept fd]

/-- An entry at which nothing is to be done. -/
def passing : List Act := [.unreadable, .unwritable]

/-- The client scanned sends `data`, and nothing is posted. -/
def sending (data : List UInt8) : List Act :=
  [.readable, .takeBuf, .read data, .handled, .release, .unwritable]

/-- Client 4 is active and sends a message, and nobody is writable. -/
def posting : List Act :=
  List.flatten [[.poll [quiet, readableOnly, quiet]], passing,
    [.readable, .takeBuf, .read [1], .push, .handled, .unwritable], passing, [.scanEnd]]

/-- Clients 4 and 5 connect and become active. -/
def twoActive : List Act :=
  List.flatten [accepting 0 4, accepting 1 5, [.poll [quiet, readableOnly, readableOnly]],
    passing, sending sub, sending sub, [.scanEnd]]

/-- Client 4 sends a message, and is writable: the message is popped for all clients. -/
def broadcasting : List Act :=
  List.flatten [[.poll [quiet, ⟨true, false, true⟩, quiet]], passing,
    [.readable, .takeBuf, .read [1], .push, .handled, .popBroadcast]]

end Server

end OpenFix
