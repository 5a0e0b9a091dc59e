/-
# Ramulator.Base.Request — memory requests.

`Request` of `base/request.h`, with the source's defaults. A command id is an element of the type `C`
of commands (`-1` is `none`), and a callback is a value of a type `K` that names the closure: the
component that registered it gives it its meaning (an empty `std::function` is `none`).
-/
import Ramulator.Dram.Spec

namespace Ramulator.Base

open Ramulator.Dram (AddrVec)

/-- A request on its way through the memory system. -/
structure Request (C K : Type) where
  addr : Int := -1
  intraChannelAddr : Int := -1
  addrVec : AddrVec := []
  typeId : Int := -1
  sourceId : Int := -1
  ingressId : Int := -1
  frontendId : Int := -1
  frontendSubId : Int := 0
  admissionOrdinal : Int := -1
  sizeBytes : Int := -1
  command : Option C := none
  finalCommand : Option C := none
  isStatUpdated : Bool := false
  arrive : Int := -1
  depart : Int := -1
  callback : Option K := none
  deriving DecidableEq, Repr

namespace Request

variable {C K : Type}

/-- `Request::Type::Read`. -/
def read : Int := 0

/-- `Request::Type::Write`. -/
def write : Int := 1

/-- The constructor `Request(addr, type)`. -/
def ofAddr (addr type : Int) : Request C K := { addr := addr, typeId := type }

/-- The constructor `Request(addr_vec, type)`: the flat address keeps its default. -/
def ofAddrVec (addrVec : AddrVec) (type : Int) : Request C K :=
  { addrVec := addrVec, typeId := type }

/-- The constructor `Request(addr_vec, Cmd, final_cmd)` of internal commands (refresh, row close). -/
def ofCommand (addrVec : AddrVec) (finalCmd : C) : Request C K :=
  { addrVec := addrVec, finalCommand := some finalCmd }

/-- The request with its arrival at the controller set. -/
def arrivedAt (r : Request C K) (clk : Int) : Request C K := { r with arrive := clk }

end Request

end Ramulator.Base
