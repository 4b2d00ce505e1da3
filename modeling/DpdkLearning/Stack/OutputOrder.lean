import DpdkLearning.Stack.Established
import DpdkLearning.Stack.Lemmas.PktStreams

/-!
This module contains the order in which the fragments of a connection go out: its peer is in the ARP table
from the SYN on, so no fragment is put back behind the others.
-/

open Lib

namespace NgStack

end NgStack
