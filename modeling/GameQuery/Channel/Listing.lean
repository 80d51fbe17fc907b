import GameQuery.Channel.Query
import GameQuery.Listing.Page

namespace GameQuery

/-!
# Listing channels

A channel to a master server. Every page comes in a datagram of its own.
-/

/-- The buffer a listing channel starts with. -/
def listingBufferSize : Nat := 1500

/-- A channel for requests to a master server and its pages. -/
structure ListingChannel where
  channel : DatagramChannel

namespace ListingChannel

def channelPart : Part ListingChannel DatagramChannel :=
  .field (·.channel) fun channel _ => { channel }

def connect {σ : Type} (peer : SocketAddress) : Dialog σ ListingChannel := do
  let channel ← DatagramChannel.connect peer listingBufferSize
  return { channel }

def setTimeout (timeout : Option Nat) (c : ListingChannel) : ListingChannel :=
  { c with channel := c.channel.setTimeout timeout }

def send (q : ListingQuery) : Dialog ListingChannel Unit :=
  .on channelPart (DatagramChannel.sendRequest q.write)

/-- The addresses on the page in a datagram, the sentinel included. -/
def readPage (datagram : List UInt8) : Except CodecError (List SocketAddressV4) :=
  match headerOf datagram with
  | none => .error .malformed
  | some header => if header = wholeHeader then Page.decode datagram else .error (.badHeader header)

/-- Receives a page. -/
def reply : Dialog ListingChannel (List SocketAddressV4) := do
  let datagram ← Dialog.on channelPart (DatagramChannel.receive none)
  Dialog.ofCodec (readPage datagram)

end ListingChannel

end GameQuery
