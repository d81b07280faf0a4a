import AlterChat.Core.Crdt

/-!
# `main.rs`: the core node

The loop of `alterchat-core/src/main.rs` over its one room: a line from the terminal is added to the
room, and what `add_message` has saved is published as it is; a message of the topic is merged as it
is.
-/

namespace AlterChat.Node

open Lib Crdt

/-- The room's id, which is the topic too. -/
def ROOM : String := "alterchat-global"

structure NodeLoop (Key Doc : Type) where
  room : Room Key Doc
  localPeerId : String

/-- What the loop hands to the network and to the terminal. -/
inductive NodeEffect where
  | publish (topic : String) (data : Bytes)
  | crdtError (e : String)
  | mergeFailed (e : String)
  /-- The last three messages. -/
  | merged (msgs : List CrdtMessage)
  deriving DecidableEq

variable {Key Actor Scalar Doc : Type}

/-- The message of a line. -/
def lineMessage (localPeerId line : String) (timestamp : Int64) : CrdtMessage where
  peerId := localPeerId
  sender := localPeerId
  text := line
  timestamp := timestamp
  ttl := none

/-- A line; `none`: a panic. -/
def NodeLoop.line (L : Libraries Key Actor Scalar Doc) (node : NodeLoop Key Doc) (line : String)
    (timestamp : Int64) (nonce : Nonce) : Option (NodeLoop Key Doc × List NodeEffect) :=
  match Room.addMessage L node.room (lineMessage node.localPeerId line timestamp) nonce with
  | (.error .panic, _) => none
  | (.error (.err e), room) => some ({ node with room }, [.crdtError e])
  | (.ok bytes, room) => some ({ node with room }, [.publish ROOM bytes])

/-- A message of the topic; `none`: a panic. -/
def NodeLoop.message (L : Libraries Key Actor Scalar Doc) (node : NodeLoop Key Doc) (data : Bytes)
    (actor : Actor) (nowMs : Int64) : Option (NodeLoop Key Doc × List NodeEffect) :=
  match Room.merge L node.room actor data with
  | (.error e, room) => some ({ node with room }, [.mergeFailed e])
  | (.ok (), room) =>
    match Room.getMessages L room nowMs with
    | .error .panic => none
    | .error (.err _) => some ({ node with room }, [.merged []])
    | .ok msgs => some ({ node with room }, [.merged (msgs.drop (msgs.length - 3))])

end AlterChat.Node
