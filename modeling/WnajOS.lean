import WnajOS.Library.Runs
import WnajOS.ReadContract
import WnajOS.Ownership
import WnajOS.Isolation
import WnajOS.Bracketing
import WnajOS.ExitStatus
import WnajOS.Linkage
import WnajOS.Preemption
import WnajOS.EndlessPage
import WnajOS.TypeAhead
import WnajOS.CommandLine
import WnajOS.RtcRates
import WnajOS.FileSystem.Directory
import WnajOS.FileSystem.FilePosition
import WnajOS.Opening
import WnajOS.Loading
import WnajOS.Arguments
import WnajOS.RtcAcceptance
import WnajOS.FunctionKeys
import WnajOS.Decoding
import WnajOS.StatusClock
import WnajOS.Mouse
import WnajOS.Console
import WnajOS.EchoLine
import WnajOS.Switching
import WnajOS.Fish.Phases
import WnajOS.Userland.Grep
import WnajOS.Userland.Executed
import WnajOS.Userland.Fish
import WnajOS.InlineAssembly
import WnajOS.Printf
import WnajOS.StatusBar
