import SipPerf.Theory.AgentPool
import SipPerf.Theory.AgentSessions
import SipPerf.Theory.NameLookup
import SipPerf.Theory.Pacing
import SipPerf.Theory.Phases
import SipPerf.Theory.Poll
import SipPerf.Theory.PriorityQueue
import SipPerf.Theory.Registration
import SipPerf.Theory.Scheduling
import SipPerf.Theory.Service
import SipPerf.Theory.Shutdown
import SipPerf.Theory.Membership
import SipPerf.Theory.Growth
import SipPerf.Theory.PollBound
import SipPerf.Theory.HangUp
import SipPerf.Theory.Acknowledge
import SipPerf.Core.Strans
import SipPerf.Theory.ClientTransaction.Repetitions
import SipPerf.Theory.ServerTransaction.Repetitions
import SipPerf.Core.Exchange
import SipPerf.Theory.Punctual
import SipPerf.Theory.Exchange
import SipPerf.Core.Sipreg
import SipPerf.Theory.RegistrationClient.Leaving
import SipPerf.Core.LinkedList
import SipPerf.Lib.Chain
import SipPerf.Lib.BubbleSort
import SipPerf.Theory.LinkedList
import SipPerf.Theory.ListSort
import SipPerf.Core.HashTable
import SipPerf.Theory.HashTable
import SipPerf.Core.Dns
import SipPerf.Core.SipRequest
import SipPerf.Theory.Dns
import SipPerf.Theory.SipRequest
